import CollabEditor.Lib.Edit
import Mathlib.Data.List.Nodup

/-!
# `Lib.EditFollow` — where a position goes when the list is edited

A position between the elements of a list, such as a cursor, is moved along with the element that follows it. An
insertion at the position itself moves it, and a deletion around it leaves it at the place of what was deleted.

## Contents
- **Positions.** `follow`: in range (`follow_le`), monotone (`follow_mono`), the end stays the end (`follow_end`).
- **Elements.** `follow_index`: an element that is still there is at the position that its own went to.
-/

namespace Edit

variable {α : Type*}

/-- Where an edit moves a position. -/
def follow : Edit α → ℕ → ℕ
  | ins p t _, q => if p ≤ q then q + t.length else q
  | del p n, q   => if p + n ≤ q then q - n else if q ≤ p then q else p

/-- The edit inserts no element of the list. -/
def Fresh (d : List α) : Edit α → Prop
  | ins _ t _ => ∀ x ∈ t, x ∉ d
  | del _ _   => True

variable {d t : List α} {e : Edit α} {q r i : ℕ} {x : α}

/-- **In range.** -/
theorem follow_le (he : InRange d e) (hq : q ≤ d.length) : follow e q ≤ (act d e).length := by
  cases e with
  | ins p t u =>
      rw [length_act_ins he]
      simp only [follow]
      split_ifs <;> omega
  | del p n =>
      rw [length_act_del he]
      simp only [InRange] at he
      simp only [follow]
      split_ifs <;> omega

/-- **The order of positions is kept.** -/
theorem follow_mono (e : Edit α) (h : q ≤ r) : follow e q ≤ follow e r := by
  cases e with
  | ins p t u =>
      simp only [follow]
      split_ifs <;> omega
  | del p n =>
      simp only [follow]
      split_ifs <;> omega

/-- **The end stays the end.** -/
theorem follow_end (he : InRange d e) : follow e d.length = (act d e).length := by
  cases e with
  | ins p t u =>
      rw [length_act_ins he]
      exact if_pos he
  | del p n =>
      rw [length_act_del he]
      exact if_pos he

/-- An element of a list without repetitions has one index. -/
theorem index_unique (hd : d.Nodup) (hq : d[q]? = some x) (hr : d[r]? = some x) : q = r := by
  have hlt : q < d.length := (List.getElem?_eq_some_iff.mp hq).1
  exact (List.getElem?_inj hlt hd).mp (hq.trans hr.symm)

/-- **An element that is still there** is where its position went. -/
theorem follow_index (hd : d.Nodup) (he : InRange d e) (hf : Fresh d e) (hq : d[q]? = some x)
    (hi : (act d e)[i]? = some x) : i = follow e q := by
  cases e with
  | ins p t u =>
      rw [getElem?_act_ins he] at hi
      simp only [follow]
      split_ifs at hi with h₁ h₂
      · have hiq := index_unique hd hi hq
        rw [if_neg (by omega)]
        exact hiq
      · -- it would be one of those inserted
        exact absurd (List.mem_of_getElem? hq) (hf x (List.mem_of_getElem? hi))
      · have hiq := index_unique hd hi hq
        rw [if_pos (by omega)]
        omega
  | del p n =>
      simp only [InRange] at he
      rw [getElem?_act_del (by omega)] at hi
      simp only [follow]
      split_ifs at hi with h₁
      · have hiq := index_unique hd hi hq
        rw [if_neg (by omega), if_pos (by omega)]
        exact hiq
      · have hiq := index_unique hd hi hq
        rw [if_pos (by omega)]
        omega

end Edit
