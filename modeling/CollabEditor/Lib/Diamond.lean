import Mathlib.Data.List.Basic

/-!
# `Lib.Diamond` — operational transformation over abstract documents

Documents `D`, operations `O`, an action `act` and a one-sided transform `xf a b` (the operation `a`
rewritten to apply after `b`). The file develops what a single commuting diamond gives for sequences:
rebasing one operation through a history (`rebase`), and carrying one operation across a list of pending
ones while each of them is rewritten in turn (`evolve`).

## Contents
- **Sequences.** `acts`, `rebase`, `evolve`, `ChainOk`.
- **Laws.** `Laws`: closure of the range condition `Ok` and the diamond, under a condition `Fine` on the
  pair that is transformed.
- **Rules.** `rebase_ok` and `evolve_converges`.
-/

namespace Diamond

variable {D O S : Type*}

/-- The document after a list of operations. -/
def acts (act : D → O → D) (d : D) (os : List O) : D := os.foldl act d

/-- `o` rewritten through a history, oldest entry first. -/
def rebase (xf : O → O → O) (o : O) (hs : List O) : O := hs.foldl xf o

/-- Carry `b` across the list `as`: the rewritten list, and `b` as it applies after `as`. -/
def evolve (xf : O → O → O) : List O → O → List O × O
  | [], b => ([], b)
  | a :: as, b => (xf a b :: (evolve xf as (xf b a)).1, (evolve xf as (xf b a)).2)

/-- Each operation of the list meets `Ok` on the document its predecessors leave. -/
def ChainOk (act : D → O → D) (Ok : D → O → Prop) : D → List O → Prop
  | _, [] => True
  | d, o :: os => Ok d o ∧ ChainOk act Ok (act d o) os

/-- Every pair `rebase` transforms is `Fine`. -/
def RebaseFine (act : D → O → D) (xf : O → O → O) (Fine : D → O → O → Prop) :
    D → O → List O → Prop
  | _, _, [] => True
  | d, o, h :: hs => Fine d o h ∧ RebaseFine act xf Fine (act d h) (xf o h) hs

/-- Every pair `evolve` transforms is `Fine`, in both directions. -/
def EvolveFine (act : D → O → D) (xf : O → O → O) (Fine : D → O → O → Prop) :
    D → List O → O → Prop
  | _, [], _ => True
  | d, a :: as, b => Fine d a b ∧ Fine d b a ∧ EvolveFine act xf Fine (act d a) as (xf b a)

section Decidable

variable {act : D → O → D} {xf : O → O → O}

instance ChainOk.decidable {Ok : D → O → Prop} [∀ d o, Decidable (Ok d o)] :
    (os : List O) → (d : D) → Decidable (ChainOk act Ok d os)
  | [], _ => isTrue trivial
  | o :: os, d =>
      have : Decidable (ChainOk act Ok (act d o) os) := ChainOk.decidable os (act d o)
      inferInstanceAs (Decidable (_ ∧ _))

instance RebaseFine.decidable {P : D → O → O → Prop} [∀ d a b, Decidable (P d a b)] :
    (hs : List O) → (d : D) → (o : O) → Decidable (RebaseFine act xf P d o hs)
  | [], _, _ => isTrue trivial
  | h :: hs, d, o =>
      have := RebaseFine.decidable (P := P) hs (act d h) (xf o h)
      inferInstanceAs (Decidable (_ ∧ _))

instance EvolveFine.decidable {P : D → O → O → Prop} [∀ d a b, Decidable (P d a b)] :
    (as : List O) → (d : D) → (b : O) → Decidable (EvolveFine act xf P d as b)
  | [], _, _ => isTrue trivial
  | a :: as, d, b =>
      have := EvolveFine.decidable (P := P) as (act d a) (xf b a)
      inferInstanceAs (Decidable (_ ∧ _ ∧ _))

end Decidable

section Conjunction

variable {act : D → O → D} {xf : O → O → O} {P Q R : D → O → O → Prop}

/-- Two conditions met at every pair of a rebase give a third one that follows from both. -/
theorem RebaseFine.imp₂ (h : ∀ d a b, P d a b → Q d a b → R d a b) {hs : List O} {d : D} {o : O}
    (hp : RebaseFine act xf P d o hs) (hq : RebaseFine act xf Q d o hs) :
    RebaseFine act xf R d o hs := by
  induction hs generalizing d o with
  | nil => trivial
  | cons e hs ih => exact ⟨h _ _ _ hp.1 hq.1, ih hp.2 hq.2⟩

theorem EvolveFine.imp₂ (h : ∀ d a b, P d a b → Q d a b → R d a b) {as : List O} {d : D} {b : O}
    (hp : EvolveFine act xf P d as b) (hq : EvolveFine act xf Q d as b) :
    EvolveFine act xf R d as b := by
  induction as generalizing d b with
  | nil => trivial
  | cons a as ih => exact ⟨h _ _ _ hp.1 hq.1, h _ _ _ hp.2.1 hq.2.1, ih hp.2.2 hq.2.2⟩

end Conjunction

/-- The laws of a transform: it keeps operations in range and in the hands of their site, and the two
    orders of two operations of different sites agree. -/
structure Laws (act : D → O → D) (xf : O → O → O) (site : O → S) (Ok : D → O → Prop)
    (Fine : D → O → O → Prop) : Prop where
  site_xf : ∀ a b, site (xf a b) = site a
  closed : ∀ {d a b}, Ok d a → Ok d b → Fine d a b → Ok (act d b) (xf a b)
  converge : ∀ {d a b}, Ok d a → Ok d b → Fine d a b → Fine d b a → site a ≠ site b →
    act (act d b) (xf a b) = act (act d a) (xf b a)

section Sequences

variable {act : D → O → D} {xf : O → O → O} {Ok : D → O → Prop}

@[simp] theorem acts_nil (d : D) : acts act d [] = d := rfl
@[simp] theorem acts_cons (d : D) (o : O) (os : List O) :
    acts act d (o :: os) = acts act (act d o) os := rfl
theorem acts_append (d : D) (os os' : List O) :
    acts act d (os ++ os') = acts act (acts act d os) os' := List.foldl_append
theorem acts_snoc (d : D) (os : List O) (o : O) :
    acts act d (os ++ [o]) = act (acts act d os) o := by rw [acts_append]; rfl

@[simp] theorem rebase_nil (o : O) : rebase xf o [] = o := rfl
@[simp] theorem rebase_cons (o h : O) (hs : List O) :
    rebase xf o (h :: hs) = rebase xf (xf o h) hs := rfl
theorem rebase_append (o : O) (hs hs' : List O) :
    rebase xf o (hs ++ hs') = rebase xf (rebase xf o hs) hs' := List.foldl_append
theorem rebase_snoc (o : O) (hs : List O) (h : O) :
    rebase xf o (hs ++ [h]) = xf (rebase xf o hs) h := by rw [rebase_append]; rfl

/-- A transform that keeps the site of an operation keeps it through a whole history. -/
theorem site_rebase {site : O → S} (h : ∀ a b, site (xf a b) = site a) (o : O) (hs : List O) :
    site (rebase xf o hs) = site o := by
  induction hs generalizing o with
  | nil => rfl
  | cons e hs ih => rw [rebase_cons, ih, h]

/-- The same for a list of operations that another one is carried across. -/
theorem site_evolve {site : O → S} (h : ∀ a b, site (xf a b) = site a) {s : S} {as : List O} {b : O}
    (has : ∀ a ∈ as, site a = s) : ∀ a ∈ (evolve xf as b).1, site a = s := by
  induction as generalizing b with
  | nil => intro a ha; cases ha
  | cons a as ih =>
      intro a' ha'
      rcases List.mem_cons.mp ha' with rfl | hmem
      · rw [h]; exact has a List.mem_cons_self
      · exact ih (fun a'' h => has a'' (List.mem_cons_of_mem a h)) a' hmem

@[simp] theorem evolve_nil (b : O) : evolve xf [] b = ([], b) := rfl

theorem length_evolve (as : List O) (b : O) : (evolve xf as b).1.length = as.length := by
  induction as generalizing b with
  | nil => rfl
  | cons a as ih => simp [evolve, ih]

theorem ChainOk.mono {Ok' : D → O → Prop} (h : ∀ d o, Ok d o → Ok' d o) {os : List O} :
    ∀ {d : D}, ChainOk act Ok d os → ChainOk act Ok' d os := by
  induction os with
  | nil => intro d _; trivial
  | cons o os ih =>
      intro d hos
      exact ⟨h d o hos.1, ih hos.2⟩

theorem ChainOk.append {d : D} {os os' : List O} :
    ChainOk act Ok d (os ++ os') ↔ ChainOk act Ok d os ∧ ChainOk act Ok (acts act d os) os' := by
  induction os generalizing d with
  | nil => simp [ChainOk]
  | cons o os ih => simp [ChainOk, ih, and_assoc]

theorem ChainOk.snoc {d : D} {os : List O} {o : O} (h : ChainOk act Ok d os)
    (ho : Ok (acts act d os) o) : ChainOk act Ok d (os ++ [o]) :=
  ChainOk.append.mpr ⟨h, ho, trivial⟩

theorem ChainOk.drop {d : D} {os : List O} (h : ChainOk act Ok d os) (k : ℕ) :
    ChainOk act Ok (acts act d (os.take k)) (os.drop k) := by
  rw [← List.take_append_drop k os] at h
  exact (ChainOk.append.mp h).2

/-- The entry at index `k` meets `Ok` on the document its predecessors leave. -/
theorem ChainOk.getElem? {d : D} {os : List O} {o : O} {k : ℕ} (h : ChainOk act Ok d os)
    (hk : os[k]? = some o) : Ok (acts act d (os.take k)) o := by
  have hd := h.drop k
  rw [List.drop_eq_getElem_cons (List.getElem?_eq_some_iff.mp hk).1,
    (List.getElem?_eq_some_iff.mp hk).2] at hd
  exact hd.1

end Sequences

/-! ## What one diamond gives for sequences -/

section Rules

variable {act : D → O → D} {xf : O → O → O} {site : O → S} {Ok : D → O → Prop}
  {Fine : D → O → O → Prop}

/-- **Rebasing through a history keeps an operation in range.** -/
theorem Laws.rebase_ok (L : Laws act xf site Ok Fine) {hs : List O} {d : D} {o : O} (ho : Ok d o)
    (hhs : ChainOk act Ok d hs) (hf : RebaseFine act xf Fine d o hs) :
    Ok (acts act d hs) (rebase xf o hs) := by
  induction hs generalizing d o with
  | nil => exact ho
  | cons h hs ih => exact ih (L.closed ho hhs.1 hf.1) hhs.2 hf.2

/-- **The broadcast loop.** Carrying `b` across the pending list `as` closes the big diamond: `b` first
    and then the rewritten list, or `as` first and then the evolved `b`, give the same document; and the
    rewritten operations are in range where they will be applied. -/
theorem Laws.evolve_converges (L : Laws act xf site Ok Fine) {as : List O} {d : D} {b : O}
    (has : ChainOk act Ok d as) (hb : Ok d b) (hf : EvolveFine act xf Fine d as b)
    (hsite : ∀ a ∈ as, site a ≠ site b) :
    acts act (act d b) (evolve xf as b).1 = act (acts act d as) (evolve xf as b).2 ∧
      ChainOk act Ok (act d b) (evolve xf as b).1 ∧
      Ok (acts act d as) (evolve xf as b).2 := by
  induction as generalizing d b with
  | nil => exact ⟨rfl, trivial, hb⟩
  | cons a as ih =>
      obtain ⟨hab, hba, hrest⟩ := hf
      have hne : site a ≠ site b := hsite a List.mem_cons_self
      have hcomm := L.converge has.1 hb hab hba hne
      obtain ⟨hdoc, hchain, hev⟩ := ih has.2 (L.closed hb has.1 hba) hrest
        (fun a' ha' => by rw [L.site_xf]; exact hsite a' (List.mem_cons_of_mem a ha'))
      refine ⟨?_, ⟨L.closed has.1 hb hab, ?_⟩, hev⟩
      · simp only [evolve, acts_cons]
        rw [hcomm]
        exact hdoc
      · rw [hcomm]
        exact hchain

end Rules

end Diamond
