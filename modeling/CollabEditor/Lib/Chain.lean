import Mathlib.Data.Nat.Notation
import Mathlib.Data.List.Basic
import Mathlib.Logic.Function.Basic
import Mathlib.Logic.Relation

/-!
# `Lib.Chain` — linked lists in a store

A store maps addresses to nodes, or to nothing where no node is allocated. `Chain link m p as` says that the
pointer `p` starts a list whose nodes, one after another through the field `link`, are at the addresses `as`;
the last one has a null link.

## Contents
- **Frames.** `Chain.congr`, `Chain.update`: what a write elsewhere, or to another field, leaves.
- **Inside.** `Chain.allocated`, `Chain.next_mem`, `Chain.last`, `Chain.reachable`, `Chain.unique`.
- **At the end.** `Chain.snoc`.
-/

variable {N : Type*} {link : N → Option ℕ} {m m' : ℕ → Option N} {p : Option ℕ} {as : List ℕ}

/-- The nodes from `p` on are at `as`. -/
def Chain (link : N → Option ℕ) (m : ℕ → Option N) : Option ℕ → List ℕ → Prop
  | p, []      => p = none
  | p, a :: as => p = some a ∧ ∃ n, m a = some n ∧ Chain link m (link n) as

namespace Chain

/-- Only the links of its nodes matter to a list. -/
theorem congr (h : ∀ a ∈ as, (m' a).map link = (m a).map link) (hc : Chain link m p as) :
    Chain link m' p as := by
  induction as generalizing p with
  | nil => exact hc
  | cons a as ih =>
      obtain ⟨hp, n, hn, hrest⟩ := hc
      have ha := h a List.mem_cons_self
      rw [hn] at ha
      obtain ⟨n', hn', hlink⟩ := Option.map_eq_some_iff.mp ha
      refine ⟨hp, n', hn', ?_⟩
      rw [hlink]
      exact ih (fun b hb => h b (List.mem_cons_of_mem a hb)) hrest

/-- A write to an address outside the list, or one that keeps the link. -/
theorem update {x : ℕ} {v : Option N} (h : x ∈ as → v.map link = (m x).map link) (hc : Chain link m p as) :
    Chain link (Function.update m x v) p as := by
  refine hc.congr fun a ha => ?_
  by_cases hax : a = x
  · subst hax
    rw [Function.update_self]
    exact h ha
  · rw [Function.update_of_ne hax]

theorem allocated {a : ℕ} (hc : Chain link m p as) (ha : a ∈ as) : ∃ n, m a = some n := by
  induction as generalizing p with
  | nil => cases ha
  | cons b as ih =>
      obtain ⟨-, n, hn, hrest⟩ := hc
      rcases List.mem_cons.mp ha with rfl | hmem
      · exact ⟨n, hn⟩
      · exact ih hrest hmem

/-- A link leads to a later node. -/
theorem next_mem {a b : ℕ} (hc : Chain link m p as) (ha : a ∈ as) (hb : (m a).bind link = some b) :
    b ∈ as.tail := by
  induction as generalizing p with
  | nil => cases ha
  | cons c as ih =>
      obtain ⟨-, n, hn, hrest⟩ := hc
      rcases List.mem_cons.mp ha with rfl | hmem
      · rw [hn] at hb
        change link n = some b at hb
        rw [hb] at hrest
        cases as with
        | nil => cases hrest
        | cons d as =>
            cases hrest.1
            exact List.mem_cons_self
      · exact List.mem_of_mem_tail (ih hrest hmem)

/-- A null link is at the end. -/
theorem last {a : ℕ} {n : N} (hc : Chain link m p as) (ha : a ∈ as) (hn : m a = some n) (hl : link n = none) :
    ∃ front, as = front ++ [a] := by
  induction as generalizing p with
  | nil => cases ha
  | cons b as ih =>
      obtain ⟨-, k, hk, hrest⟩ := hc
      rcases List.mem_cons.mp ha with rfl | hmem
      · rw [hn] at hk
        cases hk
        rw [hl] at hrest
        cases as with
        | nil => exact ⟨[], rfl⟩
        | cons c as => cases hrest.1
      · obtain ⟨front, rfl⟩ := ih hrest hmem
        exact ⟨b :: front, rfl⟩

/-- Every node of a list can be reached from the first one. -/
theorem reachable {a b : ℕ} (hc : Chain link m (some a) (a :: as)) (hb : b ∈ a :: as) :
    Relation.ReflTransGen (fun x y => (m x).bind link = some y) a b := by
  induction as generalizing a with
  | nil =>
      rw [List.mem_singleton.mp hb]
  | cons c as ih =>
      rcases List.mem_cons.mp hb with rfl | hmem
      · exact .refl
      · obtain ⟨-, n, hn, hrest⟩ := hc
        have hlink : link n = some c := hrest.1
        rw [hlink] at hrest
        refine .head ?_ (ih hrest hmem)
        rw [hn, Option.bind_some, hlink]

/-- The store determines the list. -/
theorem unique {bs : List ℕ} (ha : Chain link m p as) (hb : Chain link m p bs) : as = bs := by
  induction as generalizing p bs with
  | nil =>
      cases bs with
      | nil => rfl
      | cons b bs =>
          have hnone : p = none := ha
          rw [hnone] at hb
          cases hb.1
  | cons a as ih =>
      obtain ⟨hp, n, hn, hrest⟩ := ha
      cases bs with
      | nil =>
          have hnone : p = none := hb
          rw [hnone] at hp
          cases hp
      | cons b bs =>
          obtain ⟨hp', n', hn', hrest'⟩ := hb
          rw [hp] at hp'
          cases hp'
          rw [hn] at hn'
          cases hn'
          rw [ih hrest hrest']

/-- **Appending.** The last node is linked to one that is not in the list. -/
theorem snoc {front : List ℕ} {a b : ℕ} {n k : N} (hc : Chain link m p (front ++ [a])) (ha : a ∉ front)
    (hab : a ≠ b) (hlink : link n = some b) (hk : m b = some k) (hnull : link k = none) :
    Chain link (Function.update m a (some n)) p (front ++ [a] ++ [b]) := by
  induction front generalizing p with
  | nil =>
      obtain ⟨hp, -⟩ := hc
      refine ⟨hp, n, Function.update_self .., hlink, k, ?_, hnull⟩
      rw [Function.update_of_ne hab.symm]
      exact hk
  | cons c front ih =>
      obtain ⟨hp, j, hj, hrest⟩ := hc
      have hca : c ≠ a := fun h => ha (h ▸ List.mem_cons_self)
      refine ⟨hp, j, ?_, ih hrest fun h => ha (List.mem_cons_of_mem c h)⟩
      rw [Function.update_of_ne hca]
      exact hj

end Chain
