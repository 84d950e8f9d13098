import Mathlib.Data.Nat.Notation
import Mathlib.Data.List.Basic

/-!
# `Lib.Framing` — readers that take units off a buffered stream

A `Reader` looks at the front of a buffer and finds a whole unit, finds that it needs more input, or finds
that the stream cannot be continued. `drain` takes off units as long as it can. What makes such a reader
independent of how the stream is cut into reads is that more input never changes a unit or a refusal it has
already found; a reader carries these facts as fields.

## Contents
- **Readers.** `Next`, `Reader`, `Reader.drain`.
- **Cuts.** `drain_append`: draining a stream is draining a part of it, and then what that left together
  with the rest; `drain_prefix`: the units of a part are the first ones of the stream; `drain_append_of_refused`:
  past a refusal nothing more is found.
-/

namespace Framing

variable {β μ : Type*}

/-- What a reader finds at the front of a buffer. -/
inductive Next (β μ : Type*) where
  | more
  | refused
  | unit (m : μ) (rest : List β)

/-- A reader whose findings do not depend on what follows in the stream. -/
structure Reader (β μ : Type*) where
  next : List β → Next β μ
  shorter : ∀ {b m rest}, next b = .unit m rest → rest.length < b.length
  unit_append : ∀ {b m rest} (y : List β), next b = .unit m rest → next (b ++ y) = .unit m (rest ++ y)
  refused_append : ∀ {b} (y : List β), next b = .refused → next (b ++ y) = .refused

namespace Reader

variable (R : Reader β μ)

/-- Take off units from the front: the units, and what is left when there is no further one. -/
def drain (b : List β) : List μ × List β :=
  match h : R.next b with
  | .unit m rest =>
      have := R.shorter h
      (m :: (drain rest).1, (drain rest).2)
  | .more    => ([], b)
  | .refused => ([], b)
termination_by b.length

/-- No unit can be taken off. -/
def Stuck (b : List β) : Prop := ∀ m rest, R.next b ≠ .unit m rest

variable {R}

theorem drain_stuck {b : List β} (h : R.Stuck b) : R.drain b = ([], b) := by
  rw [drain]
  split
  next m rest hn => exact absurd hn (h m rest)
  next => rfl
  next => rfl

theorem drain_of_more {b : List β} (h : R.next b = .more) : R.drain b = ([], b) :=
  drain_stuck fun m rest hu => by rw [h] at hu; cases hu

theorem drain_of_refused {b : List β} (h : R.next b = .refused) : R.drain b = ([], b) :=
  drain_stuck fun m rest hu => by rw [h] at hu; cases hu

theorem drain_unit {b rest : List β} {m : μ} (h : R.next b = .unit m rest) :
    R.drain b = (m :: (R.drain rest).1, (R.drain rest).2) := by
  rw [drain]
  split
  next m' rest' hn =>
    rw [h] at hn
    cases hn
    rfl
  next hn => rw [h] at hn; cases hn
  next hn => rw [h] at hn; cases hn

/-- **Cuts do not matter**: what a part of the stream leaves is the front of the rest. -/
theorem drain_append (x y : List β) :
    R.drain (x ++ y) =
      ((R.drain x).1 ++ (R.drain ((R.drain x).2 ++ y)).1, (R.drain ((R.drain x).2 ++ y)).2) := by
  induction hn : x.length using Nat.strongRecOn generalizing x with
  | _ n ih =>
      by_cases hs : R.Stuck x
      · rw [drain_stuck hs]
        rfl
      · obtain ⟨m, rest, h⟩ : ∃ m rest, R.next x = .unit m rest := by
          simpa [Stuck] using hs
        rw [drain_unit h, drain_unit (R.unit_append y h), ih rest.length (hn ▸ R.shorter h) rest rfl]
        rfl

/-- More of the stream only adds units. -/
theorem drain_prefix {x z : List β} (h : x <+: z) : (R.drain x).1 <+: (R.drain z).1 := by
  obtain ⟨y, rfl⟩ := h
  rw [drain_append]
  exact List.prefix_append _ _

/-- A refusal at the front of what is left stays there, and there are no more units. -/
theorem drain_append_of_refused {x : List β} (h : R.next (R.drain x).2 = .refused) (y : List β) :
    R.drain (x ++ y) = ((R.drain x).1, (R.drain x).2 ++ y) := by
  have hstuck : R.Stuck ((R.drain x).2 ++ y) := by
    intro m rest hu
    rw [R.refused_append y h] at hu
    cases hu
  rw [drain_append, drain_stuck hstuck, List.append_nil]

end Reader

end Framing
