import CollabEditor.Lib.Diamond
import CollabEditor.Lib.Machine
import Mathlib.Logic.Function.Basic

/-!
# `Lib.Star` — replicas that edit optimistically around one sequencer

The protocol without its channels: a sequencer keeps a log, and each site has a replica that applies its
own operations at once, has at most one of them under way, and reads the log entry by entry. What a site
has not yet read of the log is its incoming channel, and `sent` is its outgoing one, so every interleaving
of local edits, sequencing, deliveries and joins is a list of `Event`s.

## Contents
- **The machine.** `Replica`, `State`, `step`.
- **Tracking.** `Phase`: what a site has outstanding is a partial fold over the log. It needs no range or
  size condition, so it holds of arbitrary positions; `Tracks.step` preserves it.
- **Coherence.** `Coherent`: a replica's document is the log prefix it has read, followed by what it has
  outstanding. It rests on the diamond laws and `Admits`, the side conditions of the transforms a step
  makes; `Coherent.step` preserves it.
- Each has its run rule (`Tracks.run`, `Coherent.run`), and `run_edits` runs a batch of local operations.
-/

namespace Star

open Diamond

variable {D O S : Type*}

/-- One site: its document, how much of the log it has read, its outstanding operations (oldest first),
    and the oldest one as it was sent, with the length of log it was based on, until it is sequenced. -/
structure Replica (D O : Type*) where
  doc   : D
  seen  : ℕ := 0
  queue : List O := []
  sent  : Option (ℕ × O) := none

structure State (D O S : Type*) where
  log      : List O
  replicas : S → Replica D O

/-- Who moves, and with what. A site that joins is handed a document, and the log as read. -/
inductive Event (D O S : Type*) where
  | edit (s : S) (o : O)
  | sequence (s : S)
  | deliver (s : S)
  | join (s : S) (d : D)

section Machine

variable (act : D → O → D) (xf : O → O → O) (site : O → S)

/-- A local operation: applied at once, and sent if nothing is outstanding. -/
def Replica.edit (r : Replica D O) (o : O) : Replica D O :=
  { r with
    doc := act r.doc o
    queue := r.queue ++ [o]
    sent := if r.queue.isEmpty then some (r.seen, o) else r.sent }

/-- The site's own entry comes back: the next outstanding operation is sent. -/
def Replica.ack (r : Replica D O) : Replica D O :=
  { r with
    seen := r.seen + 1
    queue := r.queue.tail
    sent := r.queue.tail.head?.map (r.seen + 1, ·) }

/-- Another site's entry: carried across what is outstanding, then applied. -/
def Replica.receive (r : Replica D O) (e : O) : Replica D O :=
  { r with
    doc := act r.doc (evolve xf r.queue e).2
    seen := r.seen + 1
    queue := (evolve xf r.queue e).1 }

variable [DecidableEq S]

def step (t : State D O S) : Event D O S → Option (State D O S)
  | .edit s o =>
      some { t with replicas := Function.update t.replicas s ((t.replicas s).edit act o) }
  | .sequence s => match (t.replicas s).sent with
      | some (b, o) =>
          some { log := t.log ++ [rebase xf o (t.log.drop b)]
                 replicas := Function.update t.replicas s { t.replicas s with sent := none } }
      | none => none
  | .deliver s => match t.log[(t.replicas s).seen]? with
      | some e =>
          let r := t.replicas s
          some { t with
            replicas := Function.update t.replicas s (if site e = s then r.ack else r.receive act xf e) }
      | none => none
  | .join s d =>
      some { t with replicas := Function.update t.replicas s { doc := d, seen := t.log.length } }

end Machine

/-! ## Tracking — what is outstanding is a partial fold over the log -/

section Tracking

variable (xf : O → O → O) (site : O → S)

/-- The three situations of a site: nothing outstanding; the oldest outstanding operation still on its
    way to the sequencer, no entry of the site stored since its base; or that operation stored, as the
    outstanding one folded over the entries that precede it. -/
inductive Phase (log : List O) (s : S) (r : Replica D O) : Prop where
  | idle (hq : r.queue = []) (hs : r.sent = none) (hown : ∀ e ∈ log.drop r.seen, site e ≠ s)
  | flying (b : ℕ) (o : O) (rest : List O) (hs : r.sent = some (b, o)) (hb : b ≤ r.seen)
      (ho : site o = s) (hq : r.queue = rebase xf o ((log.take r.seen).drop b) :: rest)
      (hown : ∀ e ∈ log.drop b, site e ≠ s)
  | stored (q e : O) (rest mid later : List O) (hs : r.sent = none) (hq : r.queue = q :: rest)
      (hlog : log.drop r.seen = mid ++ e :: later) (he : site e = s) (heq : e = rebase xf q mid)
      (hmid : ∀ e' ∈ mid, site e' ≠ s) (hlater : ∀ e' ∈ later, site e' ≠ s)

/-- Every site is in one of its phases, with only its own operations outstanding. -/
structure Tracks (t : State D O S) : Prop where
  seen_le : ∀ s, (t.replicas s).seen ≤ t.log.length
  sites   : ∀ s, ∀ q ∈ (t.replicas s).queue, site q = s
  phase   : ∀ s, Phase xf site t.log s (t.replicas s)

variable {xf : O → O → O} {site : O → S} {act : D → O → D} {log : List O} {s : S} {r : Replica D O}

theorem Phase.edit (h : Phase xf site log s r) {o : O} (ho : site o = s) :
    Phase xf site log s (r.edit act o) := by
  cases h with
  | idle hq hs hown =>
      refine .flying r.seen o [] ?_ (Nat.le_refl _) ho ?_ hown
      · simp only [Replica.edit, hq, List.isEmpty_nil, if_true]
      · have hnil : (log.take r.seen).drop r.seen = [] := by
          rw [List.drop_take, Nat.sub_self, List.take_zero]
        simp only [Replica.edit, hq, hnil, rebase_nil, List.nil_append]
  | flying b o' rest hs hb ho' hq hown =>
      refine .flying b o' (rest ++ [o]) ?_ hb ho' ?_ hown
      · simp only [Replica.edit, hq, List.isEmpty_cons, Bool.false_eq_true, if_false, hs]
      · simp only [Replica.edit, hq, List.cons_append]
  | stored q e rest mid later hs hq hlog he heq hmid hlater =>
      refine .stored q e (rest ++ [o]) mid later ?_ ?_ hlog he heq hmid hlater
      · simp only [Replica.edit, hq, List.isEmpty_cons, Bool.false_eq_true, if_false, hs]
      · simp only [Replica.edit, hq, List.cons_append]

/-- The sequencer stores the operation a site has under way. -/
theorem Phase.sequenced (h : Phase xf site log s r) (hle : r.seen ≤ log.length)
    (hsite : ∀ a b, site (xf a b) = site a) {b : ℕ} {o : O} (hsent : r.sent = some (b, o)) :
    Phase xf site (log ++ [rebase xf o (log.drop b)]) s { r with sent := none } := by
  cases h with
  | idle hq hs hown => rw [hs] at hsent; cases hsent
  | stored q e rest mid later hs => rw [hs] at hsent; cases hsent
  | flying b' o' rest hs hb ho hq hown =>
      rw [hs] at hsent
      cases hsent
      -- everything stored since the base splits at what the site has read
      have hsplit : log.drop b = (log.take r.seen).drop b ++ log.drop r.seen := by
        conv_lhs => rw [← List.take_append_drop r.seen log]
        rw [List.drop_append_of_le_length (by simp; omega)]
      refine .stored _ (rebase xf o (log.drop b)) rest (log.drop r.seen) [] rfl hq ?_ ?_ ?_ ?_ (by simp)
      · rw [List.drop_append_of_le_length hle]
      · rw [site_rebase hsite, ho]
      · rw [← rebase_append, ← hsplit]
      · intro e he
        exact hown e (hsplit ▸ List.mem_append_right _ he)

/-- The sequencer stores an operation of another site. -/
theorem Phase.other (h : Phase xf site log s r) (hle : r.seen ≤ log.length) {e : O} (he : site e ≠ s) :
    Phase xf site (log ++ [e]) s r := by
  cases h with
  | idle hq hs hown =>
      refine .idle hq hs ?_
      rw [List.drop_append_of_le_length hle]
      intro e' he'
      rcases List.mem_append.mp he' with hold | hnew
      · exact hown e' hold
      · rw [List.mem_singleton.mp hnew]; exact he
  | flying b o rest hs hb ho hq hown =>
      refine .flying b o rest hs hb ho ?_ ?_
      · rw [List.take_append_of_le_length hle]; exact hq
      · rw [List.drop_append_of_le_length (Nat.le_trans hb hle)]
        intro e' he'
        rcases List.mem_append.mp he' with hold | hnew
        · exact hown e' hold
        · rw [List.mem_singleton.mp hnew]; exact he
  | stored q e₀ rest mid later hs hq hlog he₀ heq hmid hlater =>
      refine .stored q e₀ rest mid (later ++ [e]) hs hq ?_ he₀ heq hmid ?_
      · rw [List.drop_append_of_le_length hle, hlog]; simp
      · intro e' he'
        rcases List.mem_append.mp he' with hold | hnew
        · exact hlater e' hold
        · rw [List.mem_singleton.mp hnew]; exact he

/-- The site reads the entry of another site. -/
theorem Phase.receive (h : Phase xf site log s r) {e : O} (hlog : log[r.seen]? = some e)
    (he : site e ≠ s) : Phase xf site log s (r.receive act xf e) := by
  obtain ⟨hlt, hget⟩ := List.getElem?_eq_some_iff.mp hlog
  have hdrop : log.drop r.seen = e :: log.drop (r.seen + 1) := by
    rw [List.drop_eq_getElem_cons hlt, hget]
  cases h with
  | idle hq hs hown =>
      refine .idle (by simp only [Replica.receive, hq, evolve_nil]) hs ?_
      intro e' he'
      exact hown e' (hdrop ▸ List.mem_cons_of_mem e he')
  | flying b o rest hs hb ho hq hown =>
      have htake : (log.take (r.seen + 1)).drop b = (log.take r.seen).drop b ++ [e] := by
        rw [List.take_add_one, hlog, Option.toList_some,
          List.drop_append_of_le_length (by rw [List.length_take]; omega)]
      refine .flying b o (evolve xf rest (xf e (rebase xf o ((log.take r.seen).drop b)))).1 hs
        (Nat.le_succ_of_le hb) ho ?_ hown
      simp only [Replica.receive, hq, evolve, htake, rebase_snoc]
  | stored q e₀ rest mid later hs hq hlog' he₀ heq hmid hlater =>
      cases mid with
      | nil =>
          -- the next entry would be the site's own
          rw [hdrop, List.nil_append] at hlog'
          injection hlog' with h1 _
          exact absurd he₀ (h1 ▸ he)
      | cons m mid =>
          rw [hdrop, List.cons_append] at hlog'
          injection hlog' with h1 h2
          subst h1
          refine .stored (xf q e) e₀ (evolve xf rest (xf e q)).1 mid later hs ?_ h2 he₀ heq ?_ hlater
          · simp only [Replica.receive, hq, evolve]
          · intro e' he'
            exact hmid e' (List.mem_cons_of_mem e he')

/-- The site reads its own entry: it equals the oldest outstanding operation. -/
theorem Phase.head_eq (h : Phase xf site log s r) {e : O} (hlog : log[r.seen]? = some e)
    (he : site e = s) : ∃ rest, r.sent = none ∧ r.queue = e :: rest ∧
      ∀ e' ∈ log.drop (r.seen + 1), site e' ≠ s := by
  obtain ⟨hlt, hget⟩ := List.getElem?_eq_some_iff.mp hlog
  have hdrop : log.drop r.seen = e :: log.drop (r.seen + 1) := by
    rw [List.drop_eq_getElem_cons hlt, hget]
  have hmem : e ∈ log.drop r.seen := by rw [hdrop]; exact List.mem_cons_self
  cases h with
  | idle hq hs hown => exact absurd he (hown e hmem)
  | flying b o rest hs hb ho hq hown =>
      refine absurd he (hown e ?_)
      have hsub : log.drop r.seen = (log.drop b).drop (r.seen - b) := by
        rw [List.drop_drop]; congr 1; omega
      exact List.mem_of_mem_drop (hsub ▸ hmem)
  | stored q e₀ rest mid later hs hq hlog' he₀ heq hmid hlater =>
      cases mid with
      | nil =>
          rw [hdrop, List.nil_append] at hlog'
          injection hlog' with h1 h2
          rw [rebase_nil] at heq
          subst h1 heq h2
          exact ⟨rest, hs, hq, hlater⟩
      | cons m mid =>
          rw [hdrop, List.cons_append] at hlog'
          injection hlog' with h1 _
          subst h1
          exact absurd he (hmid e List.mem_cons_self)

theorem Phase.ack (h : Phase xf site log s r) (hsites : ∀ q ∈ r.queue, site q = s) {e : O}
    (hlog : log[r.seen]? = some e) (he : site e = s) : Phase xf site log s r.ack := by
  obtain ⟨rest, _, hq, hlater⟩ := h.head_eq hlog he
  cases rest with
  | nil => exact .idle (by simp [Replica.ack, hq]) (by simp [Replica.ack, hq]) hlater
  | cons q rest =>
      refine .flying (r.seen + 1) q rest (by simp [Replica.ack, hq])
        (Nat.le_refl _) (hsites q (by rw [hq]; simp)) ?_ hlater
      have hnil : (log.take (r.seen + 1)).drop (r.seen + 1) = [] := by
        rw [List.drop_take, Nat.sub_self, List.take_zero]
      simp only [Replica.ack, hq, List.tail_cons, hnil, rebase_nil]

/-- What a site has under way is its own. -/
theorem Phase.sent_site (h : Phase xf site log s r) {b : ℕ} {o : O} (hsent : r.sent = some (b, o)) :
    site o = s := by
  cases h with
  | idle _ hs => rw [hs] at hsent; cases hsent
  | flying _ _ _ hs _ ho => rw [hs] at hsent; cases hsent; exact ho
  | stored _ _ _ _ _ hs => rw [hs] at hsent; cases hsent

theorem Phase.sent_le (h : Phase xf site log s r) {b : ℕ} {o : O} (hsent : r.sent = some (b, o)) :
    b ≤ r.seen := by
  cases h with
  | idle _ hs => rw [hs] at hsent; cases hsent
  | flying _ _ _ hs hb => rw [hs] at hsent; cases hsent; exact hb
  | stored _ _ _ _ _ hs => rw [hs] at hsent; cases hsent

end Tracking

/-! ### One step -/

section TracksStep

variable {xf : O → O → O} {site : O → S} {act : D → O → D} {t t' : State D O S}

/-- **Start.** Replicas of an empty log that have nothing outstanding are tracked. -/
theorem Tracks.init {d : D} : Tracks xf site ({ log := [], replicas := fun _ : S => { doc := d } }) where
  seen_le _ := Nat.le_refl 0
  sites _ _ hq := absurd hq List.not_mem_nil
  phase _ := .idle rfl rfl (by simp)

/-- Replacing one replica needs only that replica to be looked at. -/
theorem Tracks.update [DecidableEq S] {s : S} {r : Replica D O} (h : Tracks xf site t) (hle : r.seen ≤ t.log.length)
    (hsites : ∀ q ∈ r.queue, site q = s) (hp : Phase xf site t.log s r) :
    Tracks xf site { t with replicas := Function.update t.replicas s r } := by
  refine ⟨?_, ?_, ?_⟩
  all_goals
    intro s'
    by_cases hss : s' = s
    · subst hss
      simp only [Function.update_self]
      assumption
    · simp only [Function.update_of_ne hss]
      first | exact h.seen_le s' | exact h.sites s' | exact h.phase s'

/-- A local operation bears the site that makes it. -/
def Local (site : O → S) : Event D O S → Prop
  | .edit s o => site o = s
  | _ => True

/-- **Tracking is preserved by every step**, provided local operations bear their site. -/
theorem Tracks.step [DecidableEq S] (hsite : ∀ a b, site (xf a b) = site a) (h : Tracks xf site t)
    {e : Event D O S} (hlocal : Local site e) (hs : step act xf site t e = some t') :
    Tracks xf site t' := by
  cases e with
  | edit s o =>
      simp only [Star.step, Option.some.injEq] at hs
      subst hs
      have ho : site o = s := hlocal
      refine h.update (h.seen_le s) ?_ ((h.phase s).edit ho)
      intro q hq
      rcases List.mem_append.mp hq with hold | hnew
      · exact h.sites s q hold
      · rw [List.mem_singleton.mp hnew]; exact ho
  | sequence s =>
      simp only [Star.step] at hs
      cases hsent : (t.replicas s).sent with
      | none => rw [hsent] at hs; cases hs
      | some bo =>
          obtain ⟨b, o⟩ := bo
          rw [hsent] at hs
          simp only [Option.some.injEq] at hs
          subst hs
          have ho : site (rebase xf o (t.log.drop b)) = s := by
            rw [site_rebase hsite, (h.phase s).sent_site hsent]
          have hlen : t.log.length ≤ (t.log ++ [rebase xf o (t.log.drop b)]).length := by simp
          -- for the sender and for the others the same three facts in turn
          refine ⟨?_, ?_, ?_⟩
          all_goals
            intro s'
            by_cases hss : s' = s
            · subst hss
              simp only [Function.update_self]
              first
                | exact Nat.le_trans (h.seen_le s') hlen
                | exact h.sites s'
                | exact (h.phase s').sequenced (h.seen_le s') hsite hsent
            · simp only [Function.update_of_ne hss]
              first
                | exact Nat.le_trans (h.seen_le s') hlen
                | exact h.sites s'
                | exact (h.phase s').other (h.seen_le s') (ho ▸ Ne.symm hss)
  | deliver s =>
      simp only [Star.step] at hs
      cases hlog : t.log[(t.replicas s).seen]? with
      | none => rw [hlog] at hs; cases hs
      | some e =>
          rw [hlog] at hs
          simp only [Option.some.injEq] at hs
          subst hs
          have hlt := (List.getElem?_eq_some_iff.mp hlog).1
          by_cases he : site e = s
          · simp only [if_pos he]
            refine h.update hlt ?_ ((h.phase s).ack (h.sites s) hlog he)
            intro q hq
            exact h.sites s q (List.mem_of_mem_tail hq)
          · simp only [if_neg he]
            exact h.update hlt (site_evolve hsite (h.sites s)) ((h.phase s).receive hlog he)
  | join s d =>
      simp only [Star.step, Option.some.injEq] at hs
      subst hs
      exact h.update (Nat.le_refl _) (fun _ hq => absurd hq List.not_mem_nil)
        (.idle rfl rfl (by simp))

theorem Tracks.run [DecidableEq S] (hsite : ∀ a b, site (xf a b) = site a) (h : Tracks xf site t)
    {es : List (Event D O S)} (hlocal : ∀ e ∈ es, Local site e)
    (hr : Machine.run (Star.step act xf site) t es = some t') : Tracks xf site t' := by
  induction es generalizing t with
  | nil => cases hr; exact h
  | cons e es ih =>
      obtain ⟨t₁, ht₁, hr'⟩ := Machine.run_cons.mp hr
      exact ih (h.step hsite (hlocal e List.mem_cons_self) ht₁)
        (fun e' he' => hlocal e' (List.mem_cons_of_mem e he')) hr'

/-- A batch of local operations moves one replica. -/
theorem run_edits [DecidableEq S] (act : D → O → D) (xf : O → O → O) (site : O → S)
    (t : State D O S) (s : S) (os : List O) :
    Machine.run (Star.step act xf site) t (os.map (.edit s)) =
      some { t with
        replicas := Function.update t.replicas s (os.foldl (Replica.edit act) (t.replicas s)) } := by
  induction os generalizing t with
  | nil => rw [List.map_nil, Machine.run_nil, List.foldl_nil, Function.update_eq_self]
  | cons o os ih =>
      rw [List.map_cons, Machine.run_cons.mpr ⟨_, rfl, ih _⟩]
      simp only [Function.update_self, Function.update_idem, List.foldl_cons]

end TracksStep

/-! ## Coherence — what the replicas hold -/

section Coherence

variable {act : D → O → D} {xf : O → O → O} {site : O → S} {Ok : D → O → Prop}
  {Fine : D → O → O → Prop} {d₀ : D} {t t' : State D O S}

/-- The document after the first `k` entries of the log. -/
def snap (act : D → O → D) (d₀ : D) (log : List O) (k : ℕ) : D := acts act d₀ (log.take k)

/-- A replica holds the prefix it has read followed by what it has outstanding, all in range. -/
structure Holds (act : D → O → D) (Ok : D → O → Prop) (d₀ : D) (log : List O) (r : Replica D O) :
    Prop where
  doc   : r.doc = acts act (snap act d₀ log r.seen) r.queue
  chain : ChainOk act Ok (snap act d₀ log r.seen) r.queue
  sent  : ∀ b o, r.sent = some (b, o) → Ok (snap act d₀ log b) o

/-- The log is a chain of operations in range, and every replica holds its part of it. -/
structure Coherent (act : D → O → D) (Ok : D → O → Prop) (d₀ : D) (t : State D O S) : Prop where
  chain   : ChainOk act Ok d₀ t.log
  replica : ∀ s, Holds act Ok d₀ t.log (t.replicas s)

/-- The side conditions of the transforms that a step makes, and of the operation or document it
    introduces: a site joins with the sequencer's document. -/
def Admits (act : D → O → D) (xf : O → O → O) (site : O → S) (Ok : D → O → Prop)
    (Fine : D → O → O → Prop) (d₀ : D) (t : State D O S) : Event D O S → Prop
  | .edit s o => Ok (t.replicas s).doc o
  | .sequence s => ∀ b o, (t.replicas s).sent = some (b, o) →
      RebaseFine act xf Fine (snap act d₀ t.log b) o (t.log.drop b)
  | .deliver s => ∀ e, t.log[(t.replicas s).seen]? = some e → site e ≠ s →
      EvolveFine act xf Fine (snap act d₀ t.log (t.replicas s).seen) (t.replicas s).queue e
  | .join _ d => d = acts act d₀ t.log

theorem snap_succ (act : D → O → D) (d₀ : D) {log : List O} {k : ℕ} {e : O} (h : log[k]? = some e) :
    snap act d₀ log (k + 1) = act (snap act d₀ log k) e := by
  rw [snap, List.take_add_one, h, Option.toList_some, acts_snoc, snap]

theorem snap_append {log tail : List O} {k : ℕ} (h : k ≤ log.length) :
    snap act d₀ (log ++ tail) k = snap act d₀ log k := by
  rw [snap, List.take_append_of_le_length h, snap]

theorem Coherent.init {d : D} :
    Coherent act Ok d ({ log := [], replicas := fun _ : S => { doc := d } }) where
  chain := trivial
  replica _ := ⟨rfl, trivial, fun _ _ h => by cases h⟩

theorem Coherent.update [DecidableEq S] {s : S} {r : Replica D O} (h : Coherent act Ok d₀ t)
    (hr : Holds act Ok d₀ t.log r) :
    Coherent act Ok d₀ { t with replicas := Function.update t.replicas s r } := by
  refine ⟨h.chain, ?_⟩
  intro s'
  by_cases hss : s' = s
  · subst hss
    simp only [Function.update_self]
    exact hr
  · simp only [Function.update_of_ne hss]
    exact h.replica s'

theorem Holds.edit {log : List O} {r : Replica D O} (h : Holds act Ok d₀ log r) {o : O}
    (ho : Ok r.doc o) : Holds act Ok d₀ log (r.edit act o) := by
  refine ⟨?_, ?_, ?_⟩
  · simp only [Replica.edit]
    rw [acts_snoc, ← h.doc]
  · exact h.chain.snoc (h.doc ▸ ho)
  · intro b o' hsent
    simp only [Replica.edit] at hsent
    by_cases hq : r.queue.isEmpty = true
    · rw [if_pos hq] at hsent
      cases hsent
      have hdoc := h.doc
      rw [List.isEmpty_iff.mp hq, acts_nil] at hdoc
      rw [← hdoc]
      exact ho
    · rw [if_neg hq] at hsent
      exact h.sent b o' hsent

theorem Holds.ack {log : List O} {r : Replica D O} (h : Holds act Ok d₀ log r) {e : O} {rest : List O}
    (hlog : log[r.seen]? = some e) (hq : r.queue = e :: rest) : Holds act Ok d₀ log r.ack := by
  have hdoc := h.doc
  have hchain := h.chain
  rw [hq, acts_cons, ← snap_succ act d₀ hlog] at hdoc
  rw [hq, ChainOk, ← snap_succ act d₀ hlog] at hchain
  refine ⟨?_, ?_, ?_⟩
  · simp only [Replica.ack, hq, List.tail_cons]
    exact hdoc
  · simp only [Replica.ack, hq, List.tail_cons]
    exact hchain.2
  · intro b o hsent
    simp only [Replica.ack, hq, List.tail_cons, Option.map_eq_some_iff, Prod.mk.injEq] at hsent
    obtain ⟨o', hhead, rfl, rfl⟩ := hsent
    cases rest with
    | nil => cases hhead
    | cons q rest =>
        cases hhead
        exact hchain.2.1

theorem Holds.receive (L : Laws act xf site Ok Fine) {log : List O} {r : Replica D O} {s : S} {e : O}
    (h : Holds act Ok d₀ log r) (hchain : ChainOk act Ok d₀ log) (hlog : log[r.seen]? = some e)
    (hsites : ∀ q ∈ r.queue, site q = s) (he : site e ≠ s)
    (hf : EvolveFine act xf Fine (snap act d₀ log r.seen) r.queue e) :
    Holds act Ok d₀ log (r.receive act xf e) := by
  obtain ⟨hdoc, hch, _⟩ := L.evolve_converges h.chain (hchain.getElem? hlog) hf
    (fun q hq => by rw [hsites q hq]; exact Ne.symm he)
  refine ⟨?_, ?_, h.sent⟩
  · simp only [Replica.receive]
    rw [snap_succ act d₀ hlog, h.doc]
    exact hdoc.symm
  · simp only [Replica.receive]
    rw [snap_succ act d₀ hlog]
    exact hch

/-- Appending to the log changes nothing for what a replica has read. -/
theorem Holds.append {log : List O} {r : Replica D O} {e : O} (h : Holds act Ok d₀ log r)
    (hle : r.seen ≤ log.length) (hsent : ∀ b o, r.sent = some (b, o) → b ≤ r.seen) :
    Holds act Ok d₀ (log ++ [e]) r := by
  refine ⟨?_, ?_, ?_⟩
  · rw [snap_append hle]; exact h.doc
  · rw [snap_append hle]; exact h.chain
  · intro b o hb
    rw [snap_append (Nat.le_trans (hsent b o hb) hle)]
    exact h.sent b o hb

/-- **Coherence is preserved by every admitted step.** -/
theorem Coherent.step [DecidableEq S] (L : Laws act xf site Ok Fine) (ht : Tracks xf site t) (h : Coherent act Ok d₀ t)
    {e : Event D O S} (ha : Admits act xf site Ok Fine d₀ t e)
    (hs : step act xf site t e = some t') : Coherent act Ok d₀ t' := by
  cases e with
  | edit s o =>
      simp only [Star.step, Option.some.injEq] at hs
      subst hs
      exact h.update ((h.replica s).edit ha)
  | sequence s =>
      simp only [Star.step] at hs
      cases hsent : (t.replicas s).sent with
      | none => rw [hsent] at hs; cases hs
      | some bo =>
          obtain ⟨b, o⟩ := bo
          rw [hsent] at hs
          simp only [Option.some.injEq] at hs
          subst hs
          have hok := L.rebase_ok ((h.replica s).sent b o hsent) (h.chain.drop b) (ha b o hsent)
          rw [snap, ← acts_append, List.take_append_drop] at hok
          refine ⟨h.chain.snoc hok, ?_⟩
          intro s'
          have hkeep := (h.replica s').append (e := rebase xf o (t.log.drop b)) (ht.seen_le s')
            (fun b o hb => (ht.phase s').sent_le hb)
          by_cases hss : s' = s
          · subst hss
            simp only [Function.update_self]
            exact ⟨hkeep.doc, hkeep.chain, fun _ _ hb => by cases hb⟩
          · simp only [Function.update_of_ne hss]
            exact hkeep
  | deliver s =>
      simp only [Star.step] at hs
      cases hlog : t.log[(t.replicas s).seen]? with
      | none => rw [hlog] at hs; cases hs
      | some e =>
          rw [hlog] at hs
          simp only [Option.some.injEq] at hs
          subst hs
          by_cases he : site e = s
          · simp only [if_pos he]
            obtain ⟨rest, _, hq, _⟩ := (ht.phase s).head_eq hlog he
            exact h.update ((h.replica s).ack hlog hq)
          · simp only [if_neg he]
            exact h.update ((h.replica s).receive L h.chain hlog (ht.sites s) he (ha e hlog he))
  | join s d =>
      simp only [Star.step, Option.some.injEq] at hs
      subst hs
      refine h.update ⟨?_, trivial, fun _ _ hb => by cases hb⟩
      rw [snap, List.take_length]
      exact ha

theorem Coherent.run [DecidableEq S] (L : Laws act xf site Ok Fine) (ht : Tracks xf site t)
    (h : Coherent act Ok d₀ t) {es : List (Event D O S)} (hlocal : ∀ e ∈ es, Local site e)
    (ha : Machine.Along (Star.step act xf site) (Admits act xf site Ok Fine d₀) t es)
    (hr : Machine.run (Star.step act xf site) t es = some t') : Coherent act Ok d₀ t' := by
  induction es generalizing t with
  | nil => cases hr; exact h
  | cons e es ih =>
      obtain ⟨t₁, ht₁, hr'⟩ := Machine.run_cons.mp hr
      obtain ⟨hae, ha'⟩ := (Machine.along_cons ht₁).mp ha
      exact ih (ht.step L.site_xf (hlocal e List.mem_cons_self) ht₁) (h.step L ht hae ht₁)
        (fun e' he' => hlocal e' (List.mem_cons_of_mem e he')) ha' hr'

/-- A batch in range, each operation on what its predecessors leave, is admitted. -/
theorem along_edits [DecidableEq S] {s : S} {os : List O}
    (h : ChainOk act Ok (t.replicas s).doc os) :
    Machine.Along (Star.step act xf site) (Admits act xf site Ok Fine d₀) t (os.map (.edit s)) := by
  induction os generalizing t with
  | nil => trivial
  | cons o os ih =>
      refine (Machine.along_cons rfl).mpr ⟨h.1, ih ?_⟩
      simp only [Function.update_self]
      exact h.2

/-- **Convergence.** A replica that has read the whole log and has nothing outstanding holds the
    sequencer's document. -/
theorem Coherent.converged (h : Coherent act Ok d₀ t) {s : S} (hq : (t.replicas s).queue = [])
    (hseen : (t.replicas s).seen = t.log.length) : (t.replicas s).doc = acts act d₀ t.log := by
  rw [(h.replica s).doc, hq, hseen, acts_nil, snap, List.take_length]

end Coherence

end Star
