import CollabEditor.Lib.Edit

/-!
# `Lib.EditOrders` — three concurrent edits in every order

Three concurrent edits, each rebased over the ones that come before it. The last two may always change
places (that is TP1 on the list the first one leaves); whether the first two may is TP2 for the third edit,
and `Clash` names the placements in which it fails: an insertion that one deletion swallows unless another
one has closed the gap to its edge before, and two insertions at the two ends of a deletion, which closing
the gap brings into the order of their sites.

## Contents
- **Deleted intervals.** `shift`, the position map of a deletion, and `shift_comm`.
- **Shapes.** What `rebase` does to the boundaries of an edit, case by case.
- **Orders.** `rebase₂`, `inTurn`, `Clash`, `inTurn_swap_last`, `inTurn_swap_first`, `Clash.inTurn_ne`.
-/

namespace Edit

variable {α : Type*}

/-! ## Deleted intervals -/

/-- Where position `i` ends up when the interval `[q, q+n)` is deleted. -/
def shift (q n i : ℕ) : ℕ := i - (min i (q + n) - q)

theorem shift_of_le {q n i : ℕ} (h : i ≤ q) : shift q n i = i := by unfold shift; omega

theorem shift_of_mem {q n i : ℕ} (h : q ≤ i) (h' : i ≤ q + n) : shift q n i = q := by
  unfold shift; omega

theorem shift_of_ge {q n i : ℕ} (h : q + n ≤ i) : shift q n i = i - n := by unfold shift; omega

theorem shift_mono {q n i j : ℕ} (h : i ≤ j) : shift q n i ≤ shift q n j := by unfold shift; omega

theorem shift_add (q n L i : ℕ) : shift (q + L) n (i + L) = shift q n i + L := by unfold shift; omega

theorem min_le_shift (q n i : ℕ) : min i q ≤ shift q n i := by unfold shift; omega

theorem shift_sub (q n r k : ℕ) : shift q n (r + k) - shift q n r = k - shared r k q n := by
  unfold shift shared; omega

theorem shared_le (p m q n : ℕ) : shared p m q n ≤ m ∧ shared p m q n ≤ n := by unfold shared; omega

/-- Deleting what is left of `[r, r+k)` after `[q, q+n)`. -/
theorem shift_shift (q n r k i : ℕ) :
    shift (shift q n r) (shift q n (r + k) - shift q n r) (shift q n i) =
      if i ≤ r then shift q n i else if i ≤ r + k then shift q n r
        else shift q n i - (shift q n (r + k) - shift q n r) := by
  have hr : shift q n r ≤ shift q n (r + k) := shift_mono (by omega)
  split_ifs with h1 h2
  · exact shift_of_le (shift_mono h1)
  · have hi : shift q n i ≤ shift q n (r + k) := shift_mono h2
    exact shift_of_mem (shift_mono (by omega)) (by omega)
  · have hi : shift q n (r + k) ≤ shift q n i := shift_mono (by omega)
    exact shift_of_ge (by omega)

/-- **Deletions move positions alike in either order.** -/
theorem shift_comm (q n r k i : ℕ) :
    shift (shift q n r) (shift q n (r + k) - shift q n r) (shift q n i) =
      shift (shift r k q) (shift r k (q + n) - shift r k q) (shift r k i) := by
  rw [shift_shift, shift_shift]
  -- by the place of `i` relative to `[r, r+k)`, then to `[q, q+n)`
  split_ifs with h1 h2 h3 h4 h5 h6
  · rw [shift_of_le h1, shift_of_le h2]
  · rw [shift_of_mem (by omega) h3, shift_of_le (by omega)]
  · rw [shift_sub, shift_of_ge (by omega), shift_of_le h1, shared]
    omega
  · rw [shift_of_le (by omega), shift_of_mem (by omega) h4]
  · unfold shift
    omega
  · rw [shift_sub, shift_of_mem (i := i) (by omega) h4, shared]
    unfold shift
    omega
  · rw [shift_sub, shift_of_le (q := q) (by omega), shift_of_ge (q := r) (by omega), shared]
    omega
  · rw [shift_sub, shift_of_mem (i := i) (by omega) (by omega), shared]
    unfold shift
    omega
  · have hle := shared_le q n r k
    rw [shift_sub, shift_sub, shared_comm r k q n, shift_of_ge (by omega), shift_of_ge (by omega)]
    omega

/-! ## Shapes -/

/-- Where the start, and the end, of a deletion ends up when `L` elements are inserted at `p`. -/
def startAfter (p L b : ℕ) : ℕ := b + if p ≤ b then L else 0
def endAfter (p L b : ℕ) : ℕ := b + if p < b then L else 0

theorem startAfter_of_le {p L b : ℕ} (h : p ≤ b) : startAfter p L b = b + L := by
  unfold startAfter; rw [if_pos h]

theorem startAfter_of_lt {p L b : ℕ} (h : b < p) : startAfter p L b = b := by
  unfold startAfter; rw [if_neg (by omega), Nat.add_zero]

theorem endAfter_of_lt {p L b : ℕ} (h : p < b) : endAfter p L b = b + L := by
  unfold endAfter; rw [if_pos h]

theorem endAfter_of_le {p L b : ℕ} (h : b ≤ p) : endAfter p L b = b := by
  unfold endAfter; rw [if_neg (by omega), Nat.add_zero]

theorem startAfter_lt {p L a m : ℕ} (h : 0 < m) : startAfter p L a < endAfter p L (a + m) := by
  unfold startAfter endAfter
  split_ifs <;> omega

theorem rebase_del_del {p m q n : ℕ} (hm : 0 < m) :
    rebase (del p m : Edit α) (del q n) = del (shift q n p) (shift q n (p + m) - shift q n p) := by
  rw [shift_sub]
  simp only [rebase]
  split_ifs with h0 h1
  · rw [h0]
    simp only [shared] at h0
    unfold shift
    congr 1
    omega
  · rw [h0]
    unfold shift
    congr 1
    omega
  · simp only [shared] at h0
    unfold shift
    congr 1
    omega

theorem rebase_del_ins {p q n u : ℕ} {t : List α} (hn : 0 < n) :
    rebase (del q n) (ins p t u) =
      del (startAfter p t.length q) (endAfter p t.length (q + n) - startAfter p t.length q) := by
  simp only [rebase, startAfter, endAfter]
  split_ifs <;> congr 1 <;> omega

theorem rebase_ins_ins {t s : List α} {p u q v : ℕ} :
    rebase (ins p t u) (ins q s v) = ins (p + if q < p ∨ (q = p ∧ v < u) then s.length else 0) t u := by
  simp only [rebase]
  split_ifs <;> simp only [ins.injEq, Nat.add_zero, and_true] <;> omega

theorem rebase_ins_del {t : List α} {p u q n : ℕ} :
    rebase (ins p t u) (del q n) =
      if q < p ∧ p < q + n then ins q [] u else ins (shift q n p) t u := by
  simp only [rebase]
  split_ifs with h1 h2 h3 h4 h5
  · omega
  · rw [shift_of_le h1]
  · omega
  · rw [shift_of_ge h3]
  · rfl
  · omega

/-- An insertion at either end of a deletion ends up where it was. -/
theorem rebase_ins_edge {t : List α} {p u q n : ℕ} (h : p = q ∨ p = q + n) :
    rebase (ins p t u) (del q n) = ins q t u := by
  rw [rebase_ins_del, if_neg (by omega), shift_of_mem (by omega) (by omega)]

/-- What a deletion rebased over a deletion does, whether or not it is empty. -/
theorem act_rebase_del_del (d : List α) (p m q n : ℕ) :
    act d (rebase (del p m) (del q n)) = act d (del (shift q n p) (shift q n (p + m) - shift q n p)) := by
  rcases Nat.eq_zero_or_pos m with rfl | hm
  · have hzero : shared p 0 q n = 0 := by unfold shared; omega
    simp only [rebase, if_pos hzero, Nat.add_zero, Nat.sub_self, act_del_zero]
    split_ifs <;> rw [act_del_zero]
  · rw [rebase_del_del hm]

theorem act_rebase_del_ins (d : List α) (p q n u : ℕ) (t : List α) :
    act d (rebase (del q n) (ins p t u)) =
      act d (del (startAfter p t.length q)
        (endAfter p t.length (q + n) - startAfter p t.length q)) := by
  rcases Nat.eq_zero_or_pos n with rfl | hn
  · have hzero : endAfter p t.length (q + 0) - startAfter p t.length q = 0 := by
      unfold startAfter endAfter
      split_ifs <;> omega
    rw [hzero, act_del_zero]
    simp only [rebase]
    split_ifs with h1 h2
    · rw [act_del_zero]
    · rw [act_del_zero]
    · omega
  · rw [rebase_del_ins hn]

/-! ## Edits that do nothing -/

/-- An edit that changes no list: an insertion of nothing or a deletion of nothing. -/
def IsNoop : Edit α → Prop
  | ins _ t _ => t = []
  | del _ n   => n = 0

theorem IsNoop.act {a : Edit α} (h : a.IsNoop) (d : List α) : act d a = d := by
  cases a with
  | ins p t u =>
      simp only [IsNoop] at h
      rw [h, act_ins_nil]
  | del p n =>
      simp only [IsNoop] at h
      rw [h, act_del_zero]

theorem IsNoop.rebase {a : Edit α} (h : a.IsNoop) (b : Edit α) : (a.rebase b).IsNoop := by
  cases a with
  | ins p t u =>
      cases b <;> simp only [IsNoop] at h <;> simp only [Edit.rebase] <;> split_ifs <;>
        first | exact h | rfl
  | del p n =>
      simp only [IsNoop] at h
      subst h
      cases b with
      | ins q s v =>
          simp only [Edit.rebase]
          split_ifs
          · rfl
          · rfl
          · omega
      | del q m =>
          have hzero : shared p 0 q m = 0 := by unfold shared; omega
          simp only [Edit.rebase, if_pos hzero]
          split_ifs <;> rfl

/-- Rebasing over an edit that does nothing changes nothing. -/
theorem IsNoop.rebase_over {b : Edit α} (h : b.IsNoop) (a : Edit α) : a.rebase b = a := by
  cases b with
  | ins q s v =>
      simp only [IsNoop] at h
      subst h
      cases a <;> simp only [Edit.rebase, List.length_nil, Nat.add_zero, ite_self]
  | del q n =>
      simp only [IsNoop] at h
      subst h
      cases a with
      | ins p t u =>
          simp only [Edit.rebase, Nat.sub_zero]
          split_ifs
          · rfl
          · rfl
          · omega
      | del p m =>
          have hzero : shared p m q 0 = 0 := by unfold shared; omega
          simp only [Edit.rebase, if_pos hzero, Nat.sub_zero, ite_self]

/-! ## Orders -/

/-- `z` rewritten to apply after `x` and then `y`. -/
def rebase₂ (z x y : Edit α) : Edit α := rebase (rebase z x) (rebase y x)

/-- The list after `x`, `y` and `z`, each rebased over the ones before it. -/
def inTurn (d : List α) (x y z : Edit α) : List α := act (act (act d x) (rebase y x)) (rebase₂ z x y)

/-- `z` acts differently after `x` and `y` than after `y` and `x`. Either `z` deletes around an insertion
    `x`, from which the deletion `y` removes all that `z` has on one side; or `z` and `x` insert at the two
    ends of the deletion `y`, in the order opposite to that of their sites. -/
def Clash : Edit α → Edit α → Edit α → Prop
  | del r k, ins p t _, del q n => t ≠ [] ∧ r < p ∧ p < r + k ∧ 0 < n ∧
      (p = q ∧ r + k ≤ q + n ∨ p = q + n ∧ q ≤ r)
  | ins r s v, ins p t u, del q n => t ++ s ≠ s ++ t ∧ 0 < n ∧
      (p = q ∧ r = q + n ∧ v < u ∨ r = q ∧ p = q + n ∧ u < v)
  | _, _, _ => False

instance [DecidableEq α] : (z x y : Edit α) → Decidable (Clash z x y)
  | del _ _, ins _ _ _, del _ _ => inferInstanceAs (Decidable (_ ∧ _))
  | ins _ _ _, ins _ _ _, del _ _ => inferInstanceAs (Decidable (_ ∧ _))
  | del _ _, del _ _, _ | ins _ _ _, del _ _, _ => isFalse id
  | del _ _, ins _ _ _, ins _ _ _ | ins _ _ _, ins _ _ _, ins _ _ _ => isFalse id

section Noop

variable {x y z : Edit α}

theorem rebase₂_noop_left (h : x.IsNoop) : rebase₂ z x y = rebase z y := by
  rw [rebase₂, h.rebase_over, h.rebase_over]

theorem rebase₂_noop_right (h : y.IsNoop) : rebase₂ z x y = rebase z x := by
  rw [rebase₂, (h.rebase x).rebase_over]

theorem act_rebase₂_noop (h : z.IsNoop) (d : List α) : act d (rebase₂ z x y) = d :=
  ((h.rebase x).rebase _).act d

end Noop

/-- Edits that clash do something. -/
theorem Clash.not_noop {z x y : Edit α} (h : Clash z x y) : ¬ z.IsNoop ∧ ¬ x.IsNoop ∧ ¬ y.IsNoop := by
  cases z with
  | del r k =>
      cases x with
      | del q n => exact h.elim
      | ins p t u =>
          cases y with
          | ins q s v => exact h.elim
          | del q n =>
              obtain ⟨ht, hrp, hpr, hn, _⟩ := h
              exact ⟨fun hk : k = 0 => by omega, ht, fun hn' : n = 0 => by omega⟩
  | ins r s v =>
      cases x with
      | del q n => exact h.elim
      | ins p t u =>
          cases y with
          | ins q l w => exact h.elim
          | del q n =>
              obtain ⟨hne, hn, _⟩ := h
              refine ⟨fun hs : s = [] => hne ?_, fun ht : t = [] => hne ?_, fun hn' : n = 0 => by omega⟩
              · rw [hs, List.append_nil, List.nil_append]
              · rw [ht, List.append_nil, List.nil_append]

/-- Three deletions. -/
theorem act_rebase₂_dels (e : List α) {p m q n r k : ℕ} (hm : 0 < m) (hn : 0 < n) (hk : 0 < k) :
    act e (rebase₂ (del p m) (del q n) (del r k)) = act e (rebase₂ (del p m) (del r k) (del q n)) := by
  have hmono : ∀ q n : ℕ, shift q n p ≤ shift q n (p + m) := fun _ _ => shift_mono (by omega)
  rw [rebase₂, rebase₂, rebase_del_del hm, rebase_del_del hk, rebase_del_del hm, rebase_del_del hn,
    act_rebase_del_del, act_rebase_del_del, Nat.add_sub_of_le (hmono _ _), Nat.add_sub_of_le (hmono _ _),
    shift_comm q n r k p, shift_comm q n r k (p + m)]

/-- Three insertions. -/
theorem rebase₂_inss {p u q v r w : ℕ} {t s l : List α} :
    rebase₂ (ins p t u) (ins q s v) (ins r l w) = rebase₂ (ins p t u) (ins r l w) (ins q s v) := by
  simp only [rebase₂, rebase_ins_ins, ins.injEq, and_true]
  split_ifs <;> omega

/-- A deletion after two insertions. -/
theorem rebase₂_del_inss {q n p u r v : ℕ} {t s : List α} (hn : 0 < n) :
    rebase₂ (del q n) (ins p t u) (ins r s v) = rebase₂ (del q n) (ins r s v) (ins p t u) := by
  have hlt : ∀ (p : ℕ) (t : List α), startAfter p t.length q < endAfter p t.length (q + n) :=
    fun _ _ => startAfter_lt hn
  have hle := fun p t => Nat.le_of_lt (hlt p t)
  rw [rebase₂, rebase₂, rebase_ins_ins, rebase_ins_ins, rebase_del_ins hn, rebase_del_ins hn,
    rebase_del_ins (Nat.sub_pos_of_lt (hlt p t)), rebase_del_ins (Nat.sub_pos_of_lt (hlt r s)),
    Nat.add_sub_of_le (hle p t), Nat.add_sub_of_le (hle r s)]
  have hstart : startAfter (r + if p < r ∨ (p = r ∧ u < v) then t.length else 0) s.length
      (startAfter p t.length q) = startAfter (p + if r < p ∨ (r = p ∧ v < u) then s.length else 0) t.length
      (startAfter r s.length q) := by
    unfold startAfter
    split_ifs <;> omega
  have hend : endAfter (r + if p < r ∨ (p = r ∧ u < v) then t.length else 0) s.length
      (endAfter p t.length (q + n)) = endAfter (p + if r < p ∨ (r = p ∧ v < u) then s.length else 0)
      t.length (endAfter r s.length (q + n)) := by
    unfold endAfter
    split_ifs <;> omega
  rw [hstart, hend]

theorem act_del_congr (e : List α) {a b a' b' : ℕ} (h : a = a' ∧ b = b' ∨ b ≤ a ∧ b' ≤ a') :
    act e (del a (b - a)) = act e (del a' (b' - a')) := by
  rcases h with ⟨rfl, rfl⟩ | ⟨hba, hba'⟩
  · rfl
  · rw [Nat.sub_eq_zero_of_le hba, Nat.sub_eq_zero_of_le hba', act_del_zero, act_del_zero]

/-- An insertion inside a deletion `[q, q+n)` moves no boundary of what else is deleted. -/
theorem shift_inside {q n p L b : ℕ} (hqp : q < p) (hpq : p < q + n) :
    shift (startAfter p L q) (endAfter p L (q + n) - startAfter p L q) (startAfter p L b) =
        shift q n b ∧
      shift (startAfter p L q) (endAfter p L (q + n) - startAfter p L q) (endAfter p L b) =
        shift q n b := by
  rw [startAfter_of_lt hqp, endAfter_of_lt hpq]
  unfold shift startAfter endAfter
  refine ⟨?_, ?_⟩
  all_goals
    split_ifs <;> omega

/-- An insertion left of it moves them alike before and after, unless its gap closes on their end. -/
theorem shift_left {q n p L r k : ℕ} (hpq : p ≤ q) (hclash : ¬ (r < p ∧ p < r + k ∧ p = q ∧ r + k ≤ q + n)) :
    shift (q + L) n (startAfter p L r) = startAfter p L (shift q n r) ∧
        shift (q + L) n (endAfter p L (r + k)) = endAfter p L (shift q n (r + k)) ∨
      shift (q + L) n (endAfter p L (r + k)) ≤ shift (q + L) n (startAfter p L r) ∧
        endAfter p L (shift q n (r + k)) ≤ startAfter p L (shift q n r) := by
  have hstart : shift (q + L) n (startAfter p L r) = startAfter p L (shift q n r) := by
    rcases lt_or_ge r p with hrp | hpr
    · rw [startAfter_of_lt hrp, shift_of_le (by omega), shift_of_le (by omega), startAfter_of_lt hrp]
    · have hmin := min_le_shift q n r
      rw [startAfter_of_le hpr, shift_add, startAfter_of_le (by omega)]
  rcases le_or_gt (r + k) p with hbp | hpb
  · refine .inl ⟨hstart, ?_⟩
    rw [endAfter_of_le hbp, shift_of_le (by omega), shift_of_le (by omega), endAfter_of_le hbp]
  · rcases lt_or_ge p (shift q n (r + k)) with hlt | hge
    · refine .inl ⟨hstart, ?_⟩
      rw [endAfter_of_lt hpb, shift_add, endAfter_of_lt hlt]
    · -- the end has closed on the insertion, so the start has as well
      have hmin := min_le_shift q n (r + k)
      have hend : r + k ≤ q + n := by
        by_contra hgt
        rw [shift_of_ge (by omega)] at hge
        omega
      have hq : shift q n r = q := shift_of_mem (by omega) (by omega)
      have hq' : shift q n (r + k) = q := shift_of_mem (by omega) hend
      refine .inr ⟨?_, ?_⟩
      · rw [hstart, hq, endAfter_of_lt hpb, shift_add, hq', startAfter_of_le hpq]
      · rw [hq, hq', endAfter_of_le (by omega), startAfter_of_le hpq]
        omega

/-- The same for an insertion right of it, unless its gap closes on their start. -/
theorem shift_right {q n p L r k : ℕ} (hqp : q + n ≤ p)
    (hclash : ¬ (r < p ∧ p < r + k ∧ p = q + n ∧ q ≤ r)) :
    shift q n (startAfter p L r) = startAfter (p - n) L (shift q n r) ∧
        shift q n (endAfter p L (r + k)) = endAfter (p - n) L (shift q n (r + k)) ∨
      shift q n (endAfter p L (r + k)) ≤ shift q n (startAfter p L r) ∧
        endAfter (p - n) L (shift q n (r + k)) ≤ startAfter (p - n) L (shift q n r) := by
  have hmono : ∀ {i}, i ≤ p → shift q n i ≤ p - n := by
    intro i hi
    rw [← shift_of_ge hqp]
    exact shift_mono hi
  have hend : shift q n (endAfter p L (r + k)) = endAfter (p - n) L (shift q n (r + k)) := by
    rcases le_or_gt (r + k) p with hbp | hpb
    · rw [endAfter_of_le hbp, endAfter_of_le (hmono hbp)]
    · rw [endAfter_of_lt hpb, shift_of_ge (by omega), shift_of_ge (by omega), endAfter_of_lt (by omega)]
      omega
  rcases lt_or_ge r p with hrp | hpr
  · rcases lt_or_ge (shift q n r) (p - n) with hlt | hge
    · refine .inl ⟨?_, hend⟩
      rw [startAfter_of_lt hrp, startAfter_of_lt hlt]
    · -- the start has closed on the insertion, so the end has as well
      have hq : q ≤ r := by
        by_contra hgt
        rw [shift_of_le (by omega)] at hge
        omega
      have hp : p = q + n := by
        unfold shift at hge
        omega
      have hr : shift q n r = q := shift_of_mem hq (by omega)
      have hr' : shift q n (r + k) = q := shift_of_mem (by omega) (by omega)
      refine .inr ⟨?_, ?_⟩
      · rw [endAfter_of_le (by omega), startAfter_of_lt hrp, hr, hr']
      · rw [hr, hr', endAfter_of_le (by omega), startAfter_of_le (by omega)]
        omega
  · refine .inl ⟨?_, hend⟩
    rw [startAfter_of_le hpr, shift_of_ge (by omega), shift_of_ge (by omega), startAfter_of_le (by omega)]
    omega

/-- A deletion after an insertion and a deletion. -/
theorem act_rebase₂_del_ins_del (e : List α) {r k p u q n : ℕ} {t : List α} (hk : 0 < k) (hn : 0 < n)
    (hclash : ¬ (r < p ∧ p < r + k ∧ (p = q ∧ r + k ≤ q + n ∨ p = q + n ∧ q ≤ r))) :
    act e (rebase₂ (del r k) (ins p t u) (del q n)) = act e (rebase₂ (del r k) (del q n) (ins p t u)) := by
  have hlt := Nat.le_of_lt (startAfter_lt (p := p) (L := t.length) (a := r) hk)
  have hmono : shift q n r ≤ shift q n (r + k) := shift_mono (by omega)
  rw [rebase₂, rebase₂, rebase_del_ins hk, rebase_del_ins hn, rebase_del_del hk, rebase_ins_del,
    act_rebase_del_del, Nat.add_sub_of_le hlt]
  by_cases hin : q < p ∧ p < q + n
  · -- the insertion is swallowed by the other deletion
    have hnoop : (ins q [] u : Edit α).IsNoop := rfl
    rw [if_pos hin, hnoop.rebase_over, (shift_inside hin.1 hin.2).1, (shift_inside hin.1 hin.2).2]
  · rw [if_neg hin, act_rebase_del_ins, Nat.add_sub_of_le hmono]
    apply act_del_congr
    rcases le_or_gt p q with hpq | hqp
    · rw [startAfter_of_le hpq, endAfter_of_lt (by omega), shift_of_le hpq,
        show q + n + t.length - (q + t.length) = n by omega]
      exact shift_left hpq fun h => hclash ⟨h.1, h.2.1, .inl h.2.2⟩
    · rw [startAfter_of_lt hqp, endAfter_of_le (b := q + n) (by omega),
        shift_of_ge (i := p) (by omega), Nat.add_sub_cancel_left]
      exact shift_right (by omega) fun h => hclash ⟨h.1, h.2.1, .inr h.2.2⟩

/-- An insertion after an insertion and a deletion. -/
theorem act_rebase₂_ins_ins_del (e : List α) {r v p u q n : ℕ} {s t : List α} (hn : 0 < n) (huv : u ≠ v)
    (hclash : ¬ (p = q ∧ r = q + n ∧ v < u ∨ r = q ∧ p = q + n ∧ u < v)) :
    act e (rebase₂ (ins r s v) (ins p t u) (del q n)) =
      act e (rebase₂ (ins r s v) (del q n) (ins p t u)) := by
  rw [rebase₂, rebase₂, rebase_ins_ins, rebase_del_ins hn, rebase_ins_del, rebase_ins_del, rebase_ins_del,
    Nat.add_sub_of_le (Nat.le_of_lt (startAfter_lt hn))]
  by_cases hr : q < r ∧ r < q + n
  · -- swallowed by the deletion in both orders
    have hnoop : (ins q [] v : Edit α).IsNoop := rfl
    rw [if_pos hr, (hnoop.rebase _).act, if_pos, act_ins_nil]
    unfold startAfter endAfter
    refine ⟨?_, ?_⟩
    all_goals
      split_ifs <;> omega
  · rw [if_neg hr, if_neg (by unfold startAfter endAfter; split_ifs <;> omega)]
    by_cases hp : q < p ∧ p < q + n
    · -- the other insertion is swallowed
      have hnoop : (ins q [] u : Edit α).IsNoop := rfl
      rw [if_pos hp, hnoop.rebase_over, ← (shift_inside (L := t.length) (b := r) hp.1 hp.2).1]
      congr 2
      unfold startAfter
      congr 1
      split_ifs <;> omega
    · rw [if_neg hp, rebase_ins_ins]
      congr 2
      rcases le_or_gt p q with hpq | hqp
      · rw [startAfter_of_le hpq, endAfter_of_lt (by omega), shift_of_le hpq,
          show q + n + t.length - (q + t.length) = n by omega]
        unfold shift
        split_ifs <;> omega
      · rw [startAfter_of_lt hqp, endAfter_of_le (b := q + n) (by omega),
          shift_of_ge (i := p) (by omega), Nat.add_sub_cancel_left]
        unfold shift
        split_ifs <;> omega

/-! ## Where the first two may change places -/

/-- Two concurrent edits: insertions come from different sites, and a deletion stays to the right of one it
    is rebased over. -/
structure Pair (a b : Edit α) : Prop where
  apart  : Apart a b
  apart' : Apart b a
  calm   : NoUnderflow a b
  calm'  : NoUnderflow b a

/-- Three concurrent edits in range of one list. -/
structure Concurrent (d : List α) (x y z : Edit α) : Prop where
  inRange₁ : InRange d x
  inRange₂ : InRange d y
  inRange₃ : InRange d z
  pair₁₂   : Pair x y
  pair₁₃   : Pair x z
  pair₂₃   : Pair y z

theorem Pair.symm {a b : Edit α} (h : Pair a b) : Pair b a := ⟨h.apart', h.apart, h.calm', h.calm⟩

section Orders

variable {d : List α} {x y z : Edit α}

theorem Concurrent.swap_first (h : Concurrent d x y z) : Concurrent d y x z :=
  ⟨h.inRange₂, h.inRange₁, h.inRange₃, h.pair₁₂.symm, h.pair₂₃, h.pair₁₃⟩

theorem Concurrent.swap_last (h : Concurrent d x y z) : Concurrent d x z y :=
  ⟨h.inRange₁, h.inRange₃, h.inRange₂, h.pair₁₃, h.pair₁₂, h.pair₂₃.symm⟩

theorem Apart.rebase {a b : Edit α} (h : Apart a b) (c c' : Edit α) :
    Apart (a.rebase c) (b.rebase c') := by
  cases a with
  | ins p t u =>
      cases b with
      | ins q s v =>
          have huv : u ≠ v := h
          cases c <;> cases c' <;> simp only [Edit.rebase] <;> split_ifs <;> exact huv
      | del q n => cases c <;> cases c' <;> simp only [Edit.rebase] <;> split_ifs <;> trivial
  | del p m => cases c <;> cases b <;> cases c' <;> simp only [Edit.rebase] <;> split_ifs <;> trivial

/-- **The last two may change places.** -/
theorem inTurn_swap_last (h : Concurrent d x y z) : inTurn d x y z = inTurn d x z y :=
  rebase_converges (rebase_inRange h.inRange₃ h.inRange₁ h.pair₁₃.calm') (rebase_inRange h.inRange₂ h.inRange₁ h.pair₁₂.calm')
    (h.pair₂₃.apart'.rebase x x)

/-- The first two lead to one list, so the order of all three is that of the last one. -/
theorem inTurn_eq_act (h : Concurrent d x y z) :
    inTurn d y x z = act (act (act d x) (rebase y x)) (rebase₂ z y x) := by
  rw [inTurn, rebase_converges h.inRange₁ h.inRange₂ h.pair₁₂.apart]

/-- Two insertions that meet where a deletion has closed: both orders put one text before the other. -/
theorem act_ins_meet {d : List α} {q u v : ℕ} {t s : List α} (hq : q ≤ d.length) :
    act (act d (ins q t u)) (ins q s v) = d.take q ++ (s ++ t) ++ d.drop q ∧
      act (act d (ins q t u)) (ins (q + t.length) s v) = d.take q ++ (t ++ s) ++ d.drop q := by
  have hlen : (d.take q).length = q := by rw [List.length_take, Nat.min_eq_left hq]
  have hlen' : (d.take q ++ t).length = q + t.length := by rw [List.length_append, hlen]
  have htake : (d.take q ++ t ++ d.drop q).take q = d.take q := by
    rw [List.append_assoc, List.take_append_of_le_length (by omega), List.take_of_length_le (by omega)]
  have hdrop : (d.take q ++ t ++ d.drop q).drop q = t ++ d.drop q := by
    rw [List.append_assoc, List.drop_append_of_le_length (by omega), List.drop_of_length_le (by omega),
      List.nil_append]
  refine ⟨?_, ?_⟩
  · simp only [act]
    rw [htake, hdrop]
    simp only [List.append_assoc]
  · simp only [act]
    rw [← hlen', List.take_left, List.drop_left]
    simp only [List.append_assoc]

/-- At the two ends of a deletion, the orders agree exactly when the texts commute. -/
theorem inTurn_tie {r v p u q n : ℕ} {s t : List α} (h : Concurrent d (ins p t u) (del q n) (ins r s v))
    (hn : 0 < n) (htie : p = q ∧ r = q + n ∧ v < u ∨ r = q ∧ p = q + n ∧ u < v) :
    inTurn d (ins p t u) (del q n) (ins r s v) = inTurn d (del q n) (ins p t u) (ins r s v) ↔
      t ++ s = s ++ t := by
  have hq : q + n ≤ d.length := h.inRange₂
  have hmeet := act_ins_meet (d := act d (del q n)) (q := q) (u := u) (v := v) (t := t) (s := s)
    (by rw [length_act_del hq]; omega)
  have hclosed : rebase (ins p t u) (del q n) = ins q t u := rebase_ins_edge (by omega)
  rw [inTurn_eq_act h.swap_first, inTurn, hclosed]
  have hcancel : ∀ a b : List α, (act d (del q n)).take q ++ a ++ (act d (del q n)).drop q =
      (act d (del q n)).take q ++ b ++ (act d (del q n)).drop q ↔ a = b := by
    intro a b
    rw [List.append_left_inj, List.append_right_inj]
  rcases htie with ⟨rfl, rfl, hvu⟩ | ⟨rfl, rfl, huv⟩
  · have h1 : rebase₂ (ins (p + n) s v) (ins p t u) (del p n) = ins (p + t.length) s v := by
      rw [rebase₂, rebase_ins_ins, if_pos (by omega), rebase_del_ins hn, startAfter_of_le (Nat.le_refl _),
        endAfter_of_lt (by omega), rebase_ins_del, if_neg (by omega), shift_of_ge (by omega)]
      congr 1
      omega
    have h2 : rebase₂ (ins (p + n) s v) (del p n) (ins p t u) = ins p s v := by
      rw [rebase₂, hclosed, rebase_ins_del, if_neg (by omega), shift_of_mem (by omega) (Nat.le_refl _),
        rebase_ins_ins, if_neg (by omega), Nat.add_zero]
    rw [h1, h2, hmeet.1, hmeet.2, hcancel]
  · have h1 : rebase₂ (ins r s v) (ins (r + n) t u) (del r n) = ins r s v := by
      rw [rebase₂, rebase_ins_ins, if_neg (by omega), rebase_del_ins hn, startAfter_of_lt (by omega),
        rebase_ins_del, if_neg (by omega), shift_of_le (by omega), Nat.add_zero]
    have h2 : rebase₂ (ins r s v) (del r n) (ins (r + n) t u) = ins (r + t.length) s v := by
      rw [rebase₂, hclosed, rebase_ins_del, if_neg (by omega), shift_of_le (Nat.le_refl _),
        rebase_ins_ins, if_pos (by omega)]
    rw [h1, h2, hmeet.1, hmeet.2, hcancel]
    exact eq_comm

/-- Without a clash the first two may change places, unless the last one is an insertion and they are
    deletions. -/
theorem inTurn_swap_first_of (h : Concurrent d x y z) (hxy : ¬ Clash z x y) (hyx : ¬ Clash z y x)
    (hdel : ∀ p t u q n r k, z = ins p t u → x = del q n → y ≠ del r k) :
    inTurn d x y z = inTurn d y x z := by
  have hnoop : ∀ {a b : Edit α}, a.IsNoop → rebase₂ z a b = rebase₂ z b a := fun ha => by
    rw [rebase₂_noop_left ha, rebase₂_noop_right ha]
  by_cases hx : x.IsNoop
  · rw [inTurn_eq_act h, inTurn, hnoop hx]
  by_cases hy : y.IsNoop
  · rw [inTurn_eq_act h, inTurn, ← hnoop hy]
  by_cases hz : z.IsNoop
  · rw [inTurn_eq_act h, inTurn, act_rebase₂_noop hz, act_rebase₂_noop hz]
  -- by the kinds of the three edits, the last one first
  cases z with
  | ins r s v =>
      cases x with
      | ins p t u =>
          cases y with
          | ins q l w => rw [inTurn_eq_act h, inTurn, rebase₂_inss]
          | del q n =>
              have hn : 0 < n := Nat.pos_of_ne_zero hy
              have huv : u ≠ v := h.pair₁₃.apart
              by_cases htie : p = q ∧ r = q + n ∧ v < u ∨ r = q ∧ p = q + n ∧ u < v
              · exact (inTurn_tie h hn htie).mpr (by_contra fun hne => hxy ⟨hne, hn, htie⟩)
              · rw [inTurn_eq_act h, inTurn]
                exact act_rebase₂_ins_ins_del _ hn huv htie
      | del q n =>
          cases y with
          | ins p t u =>
              have hn : 0 < n := Nat.pos_of_ne_zero hx
              have huv : u ≠ v := h.pair₂₃.apart
              by_cases htie : p = q ∧ r = q + n ∧ v < u ∨ r = q ∧ p = q + n ∧ u < v
              · exact ((inTurn_tie h.swap_first hn htie).mpr
                  (by_contra fun hne => hyx ⟨hne, hn, htie⟩)).symm
              · rw [inTurn_eq_act h, inTurn]
                exact (act_rebase₂_ins_ins_del _ hn huv htie).symm
          | del m k => exact absurd rfl (hdel r s v q n m k rfl rfl)
  | del r k =>
      have hk : 0 < k := Nat.pos_of_ne_zero hz
      rw [inTurn_eq_act h, inTurn]
      cases x with
      | ins p t u =>
          cases y with
          | ins q s v => rw [rebase₂_del_inss hk]
          | del q n =>
              have hn : 0 < n := Nat.pos_of_ne_zero hy
              exact act_rebase₂_del_ins_del _ hk hn fun hg => hxy ⟨hx, hg.1, hg.2.1, hn, hg.2.2⟩
      | del q n =>
          have hn : 0 < n := Nat.pos_of_ne_zero hx
          cases y with
          | ins p t u =>
              exact (act_rebase₂_del_ins_del _ hk hn
                fun hg => hyx ⟨hy, hg.1, hg.2.1, hn, hg.2.2⟩).symm
          | del m j => exact act_rebase₂_dels _ hk hn (Nat.pos_of_ne_zero hy)

/-- **The first two may change places** when no arrangement of the three clashes. -/
theorem inTurn_swap_first (h : Concurrent d x y z) (hxyz : ¬ Clash z x y) (hyxz : ¬ Clash z y x)
    (hxzy : ¬ Clash y x z) (hzxy : ¬ Clash y z x) (hyzx : ¬ Clash x y z) (hzyx : ¬ Clash x z y) :
    inTurn d x y z = inTurn d y x z := by
  by_cases hz : ∃ p t u q n r k, z = ins p t u ∧ x = del q n ∧ y = del r k
  · obtain ⟨p, t, u, q, n, r, k, rfl, rfl, rfl⟩ := hz
    -- an insertion after two deletions: by way of the orders that begin with it
    calc inTurn d (del q n) (del r k) (ins p t u)
        = inTurn d (del q n) (ins p t u) (del r k) := inTurn_swap_last h
      _ = inTurn d (ins p t u) (del q n) (del r k) :=
          inTurn_swap_first_of h.swap_last hxzy hzxy fun _ _ _ _ _ _ _ he => by cases he
      _ = inTurn d (ins p t u) (del r k) (del q n) := inTurn_swap_last h.swap_last.swap_first
      _ = inTurn d (del r k) (ins p t u) (del q n) :=
          inTurn_swap_first_of h.swap_last.swap_first.swap_last hzyx hyzx
            fun _ _ _ _ _ _ _ he => by cases he
      _ = inTurn d (del r k) (del q n) (ins p t u) :=
          inTurn_swap_last h.swap_last.swap_first.swap_last.swap_first
  · exact inTurn_swap_first_of h hxyz hyxz
      fun p t u q n r k hp hq hr => hz ⟨p, t, u, q, n, r, k, hp, hq, hr⟩

theorem act_del_length {e : List α} {a n a' n' : ℕ} (h : a + n ≤ e.length) (h' : a' + n' ≤ e.length)
    (hne : n ≠ n') : act e (del a n) ≠ act e (del a' n') := by
  intro heq
  have hlen := congrArg List.length heq
  rw [length_act_del h, length_act_del h'] at hlen
  omega

/-- **A clash shows**: the two orders differ. -/
theorem Clash.inTurn_ne (hc : Clash z x y) (h : Concurrent d x y z) :
    inTurn d x y z ≠ inTurn d y x z := by
  cases z with
  | ins r s v =>
      cases x with
      | del q n => exact hc.elim
      | ins p t u =>
          cases y with
          | ins q l w => exact hc.elim
          | del q n =>
              obtain ⟨hne, hn, htie⟩ := hc
              exact fun heq => hne ((inTurn_tie h hn htie).mp heq)
  | del r k =>
      cases x with
      | del q n => exact hc.elim
      | ins p t u =>
          cases y with
          | ins q l w => exact hc.elim
          | del q n =>
              obtain ⟨ht, hrp, hpr, hn, hgap⟩ := hc
              have hL : 0 < t.length := List.length_pos_of_ne_nil ht
              have hk : 0 < k := by omega
              have hp : p ≤ d.length := h.inRange₁
              have hq : q + n ≤ d.length := h.inRange₂
              have hr : r + k ≤ d.length := h.inRange₃
              have hlen : (act (act d (del q n)) (ins q t u)).length = d.length - n + t.length := by
                rw [length_act_ins (by rw [length_act_del hq]; omega), length_act_del hq]
              have hfirst : rebase (del r k) (ins p t u) = del r (k + t.length) := by
                rw [rebase_del_ins hk, startAfter_of_lt hrp, endAfter_of_lt hpr]
                congr 1
                omega
              rw [inTurn_eq_act h.swap_first, inTurn, rebase₂, rebase₂, hfirst,
                rebase_ins_edge (by omega), rebase_del_ins hn, rebase_del_del (by omega), rebase_del_del hk]
              rcases hgap with ⟨rfl, hend⟩ | ⟨rfl, hstart⟩
              · -- the deletion between has removed all that `z` has behind the insertion
                have h1 : shift p n r = r := shift_of_le (by omega)
                have h2 : shift p n (r + k) = p := shift_of_mem (by omega) hend
                have h3 : shift (p + t.length) n r = r := shift_of_le (by omega)
                have h4 : shift (p + t.length) n (r + (k + t.length)) = p + t.length := by
                  rw [← Nat.add_assoc, shift_add, h2]
                rw [h1, h2, startAfter_of_le (Nat.le_refl p), endAfter_of_lt (by omega),
                  show p + n + t.length - (p + t.length) = n by omega, h3, h4, rebase_del_ins (by omega),
                  startAfter_of_lt hrp, endAfter_of_le (by omega)]
                exact act_del_length (by omega) (by omega) (by omega)
              · -- or all that it has in front
                have h1 : shift q n r = q := shift_of_mem hstart (by omega)
                have h2 : shift q n (r + k) = r + k - n := shift_of_ge (by omega)
                have h3 : shift q n (r + (k + t.length)) = r + (k + t.length) - n := shift_of_ge (by omega)
                rw [h1, h2, startAfter_of_lt (by omega), endAfter_of_le (Nat.le_refl _),
                  Nat.add_sub_cancel_left, h1, h3, rebase_del_ins (by omega), startAfter_of_le (Nat.le_refl q),
                  endAfter_of_lt (by omega)]
                exact act_del_length (by omega) (by omega) (by omega)

end Orders

end Edit
