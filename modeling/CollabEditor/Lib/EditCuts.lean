import CollabEditor.Lib.Edit

/-!
# `Lib.EditCuts` — edits that keep pieces whole

A list is made of pieces that must not be torn apart, such as the code points of a text. `W` says of a list that
it is made of whole pieces; a position is a *cut* when the lists on both sides of it are. An edit at cuts
leaves a whole list, and stays at cuts when it is rebased over another one.

An empty deletion tears nothing, wherever it is.

## Contents
- **Cuts.** `Pieces`, the laws of `W`; `Cut`, `Cut.between`; where the cuts go when the list is edited.
- **Edits.** `Aligned`, `act_whole`, `rebase_aligned`.
- **Edits with both ends on cuts.** `OnCuts`, and `rebase_onCuts_iff`: rebasing keeps it, but for an empty deletion
  strictly inside another one.
-/

namespace Edit

variable {α : Type*}

/-- The lists of whole pieces: what follows a whole list in a whole list is whole. -/
structure Pieces (W : List α → Prop) : Prop where
  nil    : W []
  append : ∀ {as bs}, W as → W bs → W (as ++ bs)
  cancel : ∀ {as bs}, W (as ++ bs) → W as → W bs

/-- A position between whole pieces. -/
def Cut (W : List α → Prop) (d : List α) (p : ℕ) : Prop := p ≤ d.length ∧ W (d.take p) ∧ W (d.drop p)

instance (W : List α → Prop) [DecidablePred W] (d : List α) (p : ℕ) : Decidable (Cut W d p) :=
  inferInstanceAs (Decidable (_ ∧ _))

/-- The edit inserts whole pieces at a cut, or deletes whole pieces, or nothing. -/
def Aligned (W : List α → Prop) (d : List α) : Edit α → Prop
  | ins p t _ => Cut W d p ∧ W t
  | del p n   => p + n ≤ d.length ∧ (n = 0 ∨ Cut W d p ∧ Cut W d (p + n))

instance (W : List α → Prop) [DecidablePred W] (d : List α) : (e : Edit α) → Decidable (Aligned W d e)
  | ins _ _ _ => inferInstanceAs (Decidable (_ ∧ _))
  | del _ _   => inferInstanceAs (Decidable (_ ∧ _))

/-- The edit inserts whole pieces at a cut, or deletes from one cut to another. -/
def OnCuts (W : List α → Prop) (d : List α) : Edit α → Prop
  | ins p t _ => Cut W d p ∧ W t
  | del p n   => Cut W d p ∧ Cut W d (p + n)

instance (W : List α → Prop) [DecidablePred W] (d : List α) : (e : Edit α) → Decidable (OnCuts W d e)
  | ins _ _ _ => inferInstanceAs (Decidable (_ ∧ _))
  | del _ _   => inferInstanceAs (Decidable (_ ∧ _))

/-- An empty deletion strictly inside another one. -/
def Inside : Edit α → Edit α → Prop
  | del p m, del q n => m = 0 ∧ q < p ∧ p < q + n
  | _, _             => False

/-- The position that a deletion has when the length of another one is taken off is a cut. -/
def Lands (W : List α → Prop) (d : List α) : Edit α → Edit α → Prop
  | del p _, del _ n => Cut W d (p - n)
  | _, _             => True

variable {W : List α → Prop} {d t : List α} {p q n u : ℕ} {a b : Edit α}

theorem Aligned.inRange (h : Aligned W d a) : InRange d a := by
  cases a with
  | ins p t u => exact h.1.1
  | del p n => exact h.1

theorem OnCuts.aligned (h : OnCuts W d a) : Aligned W d a := by
  cases a with
  | ins p t u => exact h
  | del p n => exact ⟨h.2.1, .inr h⟩

theorem cut_append {xs ys : List α} (hx : W xs) (hy : W ys) : Cut W (xs ++ ys) xs.length := by
  refine ⟨by simp, ?_, ?_⟩
  · rwa [List.take_left]
  · rwa [List.drop_left]

/-- An empty deletion stays empty. -/
theorem rebase_del_zero (p : ℕ) (b : Edit α) : ∃ p', rebase (del p 0) b = del p' 0 := by
  cases b with
  | ins q r v =>
      simp only [rebase]
      split_ifs with h h'
      · exact ⟨_, rfl⟩
      · exact ⟨_, rfl⟩
      · omega
  | del q n =>
      simp only [rebase]
      split_ifs
      · exact ⟨_, rfl⟩
      · exact ⟨_, rfl⟩
      · exact ⟨_, by rw [Nat.zero_sub]⟩

theorem take_eq_append (d : List α) (h : p ≤ q) : d.take q = d.take p ++ (d.take q).drop p := by
  conv_lhs => rw [← List.take_append_drop p (d.take q), List.take_take, Nat.min_eq_left h]

section Laws

variable (hW : Pieces W)

include hW

/-- What lies between two whole beginnings is whole. -/
theorem whole_between (hp : W (d.take p)) (hq : W (d.take q)) (h : p ≤ q) : W ((d.take q).drop p) := by
  rw [take_eq_append d h] at hq
  exact hW.cancel hq hp

/-- Two cuts part the list into three whole ones. -/
theorem Cut.between (hp : Cut W d p) (hq : Cut W d q) (h : p ≤ q) :
    ∃ xs ms ys, d = xs ++ ms ++ ys ∧ xs.length = p ∧ xs.length + ms.length = q ∧ W xs ∧ W ms ∧ W ys := by
  have hlen : (d.take p).length = p := by rw [List.length_take, Nat.min_eq_left hp.1]
  have hmid : ((d.take q).drop p).length = q - p := by
    rw [List.length_drop, List.length_take, Nat.min_eq_left hq.1]
  refine ⟨d.take p, (d.take q).drop p, d.drop q, ?_, hlen, by omega, hp.2.1, whole_between hW hp.2.1 hq.2.1 h, hq.2.2⟩
  rw [← take_eq_append d h, List.take_append_drop]

/-- A cut before an insertion. -/
theorem Cut.act_ins_left (hp : Cut W d p) (hq : Cut W d q) (ht : W t) (h : p ≤ q) : Cut W (act d (ins q t u)) p := by
  obtain ⟨xs, ms, ys, rfl, rfl, rfl, hx, hm, hy⟩ := Cut.between hW hp hq h
  have hact : act (xs ++ ms ++ ys) (ins (xs.length + ms.length) t u) = xs ++ (ms ++ t ++ ys) := by
    rw [act, ← List.length_append, List.take_left, List.drop_left]
    simp only [List.append_assoc]
  rw [hact]
  exact cut_append hx (hW.append (hW.append hm ht) hy)

/-- A cut after an insertion moves on. -/
theorem Cut.act_ins_right (hp : Cut W d p) (hq : Cut W d q) (ht : W t) (h : q ≤ p) :
    Cut W (act d (ins q t u)) (p + t.length) := by
  obtain ⟨xs, ms, ys, rfl, rfl, rfl, hx, hm, hy⟩ := Cut.between hW hq hp h
  have hact : act (xs ++ ms ++ ys) (ins xs.length t u) = (xs ++ t ++ ms) ++ ys := by
    simp [act]
  have hlen : xs.length + ms.length + t.length = (xs ++ t ++ ms).length := by
    simp only [List.length_append]
    omega
  rw [hact, hlen]
  exact cut_append (hW.append (hW.append hx ht) hm) hy

/-- A cut before a deletion. -/
theorem Cut.act_del_left (hp : Cut W d p) (hq : Cut W d q) (hqn : Cut W d (q + n)) (h : p ≤ q) :
    Cut W (act d (del q n)) p := by
  obtain ⟨xs, ms, ys, hd, rfl, rfl, hx, hm, -⟩ := Cut.between hW hp hq h
  have hact : act d (del (xs.length + ms.length) n) = xs ++ (ms ++ d.drop (xs.length + ms.length + n)) := by
    have htake : d.take (xs.length + ms.length) = xs ++ ms := by
      rw [hd, ← List.length_append, List.take_left]
    rw [act, htake, List.append_assoc]
  rw [hact]
  exact cut_append hx (hW.append hm hqn.2.2)

/-- A cut after a deletion moves back. -/
theorem Cut.act_del_right (hp : Cut W d p) (hq : Cut W d q) (hqn : Cut W d (q + n)) (h : q + n ≤ p) :
    Cut W (act d (del q n)) (p - n) := by
  obtain ⟨xs, ms, ys, hd, hlen, hp', -, hm, hy⟩ := Cut.between hW hqn hp h
  have hfront : (d.take q).length = q := by rw [List.length_take, Nat.min_eq_left hq.1]
  have hact : act d (del q n) = (d.take q ++ ms) ++ ys := by
    have hdrop : d.drop (q + n) = ms ++ ys := by
      rw [hd, ← hlen, List.append_assoc, List.drop_left]
    rw [act, hdrop, List.append_assoc]
  have hpos : p - n = (d.take q ++ ms).length := by
    rw [List.length_append, hfront]
    omega
  rw [hact, hpos]
  exact cut_append (hW.append hq.2.1 hm) hy

/-- **An aligned edit** of a whole list leaves a whole list. -/
theorem act_whole (hd : W d) (ha : Aligned W d a) : W (act d a) := by
  cases a with
  | ins p t u => exact hW.append (hW.append ha.1.2.1 ha.2) ha.1.2.2
  | del p n =>
      rcases ha.2 with rfl | ⟨hp, hpn⟩
      · rwa [act_del_zero]
      · exact hW.append hp.2.1 hpn.2.2

theorem rebase_ins_aligned {s : ℕ} (hp : Cut W d p) (ht : W t) (hb : Aligned W d b) :
    Aligned W (act d b) (rebase (ins p t s) b) := by
  cases b with
  | ins q r v =>
      obtain ⟨hq, hr⟩ := hb
      simp only [rebase]
      split_ifs with h
      · exact ⟨Cut.act_ins_left hW hp hq hr (by omega), ht⟩
      · exact ⟨Cut.act_ins_right hW hp hq hr (by omega), ht⟩
  | del q n =>
      obtain ⟨-, rfl | ⟨hq, hqn⟩⟩ := hb
      · rw [act_del_zero]
        simp only [rebase]
        split_ifs with h h'
        · exact ⟨hp, ht⟩
        · exact ⟨hp, ht⟩
        · omega
      · simp only [rebase]
        split_ifs with h h'
        · exact ⟨Cut.act_del_left hW hp hq hqn h, ht⟩
        · exact ⟨Cut.act_del_right hW hp hq hqn h', ht⟩
        · exact ⟨Cut.act_del_left hW hq hq hqn (Nat.le_refl q), hW.nil⟩

/-- A deletion of something: each of its ends goes to a cut. -/
theorem rebase_del_aligned {m : ℕ} (hp : Cut W d p) (hpm : Cut W d (p + m)) (hm : 0 < m) (hb : Aligned W d b)
    (hrange : InRange (act d b) (rebase (del p m) b)) : Aligned W (act d b) (rebase (del p m) b) := by
  cases b with
  | ins q r v =>
      obtain ⟨hq, hr⟩ := hb
      simp only [rebase] at hrange ⊢
      split_ifs at hrange ⊢ with h h'
      · refine ⟨hrange, .inr ⟨Cut.act_ins_right hW hp hq hr h, ?_⟩⟩
        rw [Nat.add_right_comm]
        exact Cut.act_ins_right hW hpm hq hr (by omega)
      · exact ⟨hrange, .inr ⟨Cut.act_ins_left hW hp hq hr (by omega), Cut.act_ins_left hW hpm hq hr h'⟩⟩
      · refine ⟨hrange, .inr ⟨Cut.act_ins_left hW hp hq hr (by omega), ?_⟩⟩
        rw [← Nat.add_assoc]
        exact Cut.act_ins_right hW hpm hq hr (by omega)
  | del q n =>
      rcases Nat.eq_zero_or_pos n with rfl | hn
      · -- nothing was deleted, and nothing is shared with nothing
        have hshared : shared p m q 0 = 0 := by
          unfold shared
          omega
        rw [act_del_zero]
        simp only [rebase, hshared, if_true] at hrange ⊢
        split_ifs at hrange ⊢
        · exact ⟨hpm.1, .inr ⟨hp, hpm⟩⟩
        · exact ⟨hpm.1, .inr ⟨hp, hpm⟩⟩
      · obtain ⟨hq, hqn⟩ := hb.2.resolve_left (Nat.ne_of_gt hn)
        simp only [rebase] at hrange ⊢
        unfold shared at hrange ⊢
        split_ifs at hrange ⊢ with h0 h
        · refine ⟨hrange, .inr ⟨Cut.act_del_right hW hp hq hqn (by omega), ?_⟩⟩
          rw [show p - n + m = p + m - n by omega]
          exact Cut.act_del_right hW hpm hq hqn (by omega)
        · exact ⟨hrange, .inr ⟨Cut.act_del_left hW hp hq hqn (by omega), Cut.act_del_left hW hpm hq hqn (by omega)⟩⟩
        · refine ⟨hrange, ?_⟩
          rcases Nat.le_total p q with hpq | hqp
          · have hstart := Cut.act_del_left hW hp hq hqn hpq
            rw [Nat.min_eq_left hpq, Nat.max_eq_right hpq]
            rcases Nat.le_total (p + m) (q + n) with hle | hge
            · -- the deletion ends inside the other one
              refine .inr ⟨hstart, ?_⟩
              rw [show p + (m - (min (p + m) (q + n) - q)) = q by omega]
              exact Cut.act_del_left hW hq hq hqn (Nat.le_refl q)
            · refine .inr ⟨hstart, ?_⟩
              rw [show p + (m - (min (p + m) (q + n) - q)) = p + m - n by omega]
              exact Cut.act_del_right hW hpm hq hqn hge
          · have hstart := Cut.act_del_left hW hq hq hqn (Nat.le_refl q)
            rw [Nat.min_eq_right hqp, Nat.max_eq_left hqp]
            rcases Nat.le_total (p + m) (q + n) with hle | hge
            · -- all of it is gone
              exact .inl (by omega)
            · refine .inr ⟨hstart, ?_⟩
              rw [show q + (m - (min (p + m) (q + n) - p)) = p + m - n by omega]
              exact Cut.act_del_right hW hpm hq hqn hge

/-- **Rebasing keeps an edit aligned**, on the list the other edit leaves. -/
theorem rebase_aligned (ha : Aligned W d a) (hb : Aligned W d b) (hn : NoUnderflow a b) :
    Aligned W (act d b) (rebase a b) := by
  cases a with
  | ins p t s => exact rebase_ins_aligned hW ha.1 ha.2 hb
  | del p m =>
      have hrange := rebase_inRange ha.inRange hb.inRange hn
      rcases Nat.eq_zero_or_pos m with rfl | hm
      · obtain ⟨p', hp'⟩ := rebase_del_zero p b
        rw [hp'] at hrange ⊢
        exact ⟨hrange, .inl rfl⟩
      · obtain ⟨hp, hpm⟩ := ha.2.resolve_left (Nat.ne_of_gt hm)
        exact rebase_del_aligned hW hp hpm hm hb hrange

/-! ## Both ends on cuts -/

/-- A position before a deletion that is a cut afterwards was one before. -/
theorem Cut.of_act_del_left (hq : Cut W d q) (h : p ≤ q) (hp : Cut W (act d (del q n)) p) : Cut W d p := by
  have hlen : (d.take p).length = p := by
    rw [List.length_take, Nat.min_eq_left (Nat.le_trans h hq.1)]
  have hact : act d (del q n) = d.take p ++ ((d.take q).drop p ++ d.drop (q + n)) := by
    rw [act, take_eq_append d h, List.append_assoc, List.drop_left' hlen]
  have hbefore : W (d.take p) := by
    have htake := hp.2.1
    rwa [hact, List.take_left' hlen] at htake
  have hafter : d.drop p = (d.take q).drop p ++ d.drop q := by
    rw [← List.take_append_drop q d, List.drop_append_of_le_length (by rw [List.length_take, Nat.min_eq_left hq.1]; exact h),
      List.take_append_drop]
  refine ⟨Nat.le_trans h hq.1, hbefore, ?_⟩
  rw [hafter]
  exact hW.append (whole_between hW hbefore hq.2.1 h) hq.2.2

/-- A deletion with both ends on cuts, rebased to an empty one: its position is a cut, unless it was empty and
    strictly inside the other one. -/
theorem rebase_empty_cut {m p' : ℕ} (hp : Cut W d p) (hpm : Cut W d (p + m)) (hb : OnCuts W d b)
    (h : rebase (del p m) b = del p' 0) (hi : ¬ Inside (del p m) b) : Cut W (act d b) p' := by
  cases b with
  | ins q r v =>
      obtain ⟨hq, hr⟩ := hb
      simp only [rebase] at h
      split_ifs at h with h₁ h₂
      · cases h
        exact Cut.act_ins_right hW hp hq hr h₁
      · cases h
        exact Cut.act_ins_left hW hp hq hr (by omega)
      · injection h with h₃ h₄
        subst h₃
        exact Cut.act_ins_left hW hp hq hr (by omega)
  | del q n =>
      obtain ⟨hq, hqn⟩ := hb
      simp only [rebase] at h
      simp only [Inside] at hi
      by_cases h₀ : shared p m q n = 0
      · rw [if_pos h₀] at h
        unfold shared at h₀
        by_cases h₁ : q < p
        · rw [if_pos h₁] at h
          cases h
          exact Cut.act_del_right hW hp hq hqn (by omega)
        · rw [if_neg h₁] at h
          cases h
          exact Cut.act_del_left hW hp hq hqn (by omega)
      · rw [if_neg h₀] at h
        injection h with h₃ h₄
        rcases Nat.le_total p q with hpq | hqp
        · rw [Nat.min_eq_left hpq] at h₃
          subst h₃
          exact Cut.act_del_left hW hp hq hqn hpq
        · rw [Nat.min_eq_right hqp] at h₃
          subst h₃
          exact Cut.act_del_left hW hq hq hqn (Nat.le_refl q)

/-- **Rebasing keeps both ends on cuts**, unless an empty deletion lies strictly inside the other one; it lands
    before that one by its length, on a cut or not. -/
theorem rebase_onCuts_iff (ha : OnCuts W d a) (hb : OnCuts W d b) (hn : NoUnderflow a b) :
    OnCuts W (act d b) (rebase a b) ↔ (Inside a b → Lands W d a b) := by
  have hrebased := rebase_aligned hW ha.aligned hb.aligned hn
  by_cases hi : Inside a b
  · -- the empty deletion is moved back by the length of the other one
    cases a with
    | ins p t u => cases hi
    | del p m =>
        cases b with
        | ins q r v => cases hi
        | del q n =>
            obtain ⟨rfl, hqp, hpq⟩ := hi
            have h₀ : shared p 0 q n = 0 := by
              unfold shared
              omega
            have hle : n ≤ p := hn h₀ hqp
            have hlands : Cut W (act d (del q n)) (p - n) ↔ Cut W d (p - n) :=
              ⟨Cut.of_act_del_left hW hb.1 (by omega),
                fun h => Cut.act_del_left hW h hb.1 hb.2 (by omega)⟩
            simp only [rebase, h₀, if_true, if_pos hqp, OnCuts, Lands, Nat.add_zero, and_self]
            exact hlands.trans ⟨fun h _ => h, fun h => h ⟨rfl, hqp, hpq⟩⟩
  · refine iff_of_true ?_ (fun h => absurd h hi)
    cases hr : rebase a b with
    | ins p' t' u' =>
        rw [hr] at hrebased
        exact hrebased
    | del p' m' =>
        rw [hr] at hrebased
        rcases hrebased.2 with rfl | hcuts
        · cases a with
          | ins p t u =>
              exfalso
              cases b with
              | ins q r v =>
                  simp only [rebase] at hr
                  split_ifs at hr
              | del q n =>
                  simp only [rebase] at hr
                  split_ifs at hr
          | del p m =>
              have hcut := rebase_empty_cut hW ha.1 ha.2 hb hr hi
              exact ⟨hcut, hcut⟩
        · exact hcuts

end Laws

end Edit
