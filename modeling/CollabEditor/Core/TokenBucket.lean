import Mathlib.Algebra.Group.Nat.Defs
import Mathlib.Data.List.Basic
import Mathlib.Tactic.SplitIfs

/-!
# `Core.TokenBucket` — how much a bucket of tokens gives out

`TokenBucket` of `collab/token_bucket.h`. Each call takes effect in the one exchange of its loop that succeeds, on
the value it read, so a call is one step here. Time is passed in by the caller; a positive time always brings at
least one token, however short it is, which a bucket that is asked often gives out as well.

## Contents
- **The bucket.** `tryConsume`, `refill`, `advanceTime`; `Full`: never more tokens than the capacity.
- **The meter.** `Metered`, the calls and what they gave; `rate_bounded`.
-/

namespace CollabEditor

/-- `collab::TokenBucket`. -/
structure TokenBucket where
  tokens   : UInt64
  capacity : UInt64
  deriving DecidableEq, Repr

namespace TokenBucket

/-- The constructor. -/
def create (capacity : UInt32) : TokenBucket :=
  { tokens := capacity.toUInt64, capacity := capacity.toUInt64 }

/-- `TokenBucket::try_consume`. -/
def tryConsume (b : TokenBucket) (count : UInt32) : TokenBucket × Bool :=
  if b.tokens < count.toUInt64 then (b, false)
  else ({ b with tokens := b.tokens - count.toUInt64 }, true)

/-- `TokenBucket::refill`. -/
def refill (b : TokenBucket) : TokenBucket := { b with tokens := b.capacity }

/-- The tokens that a time brings. -/
def tokensToAdd (b : TokenBucket) (duration : Int64) : UInt64 :=
  let tokensToAdd := b.capacity * duration.toUInt64 / 1000
  if tokensToAdd = 0 ∧ 0 < duration then 1 else tokensToAdd

/-- Less than one token is due for a positive time. -/
def Rounds (b : TokenBucket) (duration : Int64) : Prop :=
  b.capacity.toNat * duration.toNatClampNeg < 1000 ∧ 0 < duration

instance (b : TokenBucket) (duration : Int64) : Decidable (b.Rounds duration) :=
  inferInstanceAs (Decidable (_ ∧ _))

/-- `TokenBucket::advance_time`, with the time in milliseconds. -/
def advanceTime (b : TokenBucket) (duration : Int64) : TokenBucket :=
  { b with tokens := min (b.tokens + b.tokensToAdd duration) b.capacity }

/-- The bucket holds no more than its capacity, which was given with 32 bits. -/
structure Full (b : TokenBucket) : Prop where
  tokens   : b.tokens.toNat ≤ b.capacity.toNat
  capacity : b.capacity.toNat < 2 ^ 32

section Full

variable {b : TokenBucket} {count : UInt32} {duration : Int64}

theorem full_create (capacity : UInt32) : (create capacity).Full :=
  ⟨Nat.le_refl _, by simpa [create] using capacity.toNat_lt⟩

theorem toNat_tryConsume (h : ¬ b.tokens < count.toUInt64) :
    (b.tokens - count.toUInt64).toNat + count.toNat = b.tokens.toNat := by
  have hle : count.toUInt64 ≤ b.tokens := UInt64.not_lt.mp h
  have hcount : count.toUInt64.toNat = count.toNat := UInt32.toNat_toUInt64 count
  rw [UInt64.toNat_sub_of_le _ _ hle, hcount]
  rw [UInt64.le_iff_toNat_le, hcount] at hle
  omega

theorem Full.tryConsume (h : b.Full) (count : UInt32) : (b.tryConsume count).1.Full := by
  unfold TokenBucket.tryConsume
  split_ifs with hlt
  · exact h
  · have hsum := toNat_tryConsume hlt
    have htokens := h.tokens
    refine ⟨?_, h.capacity⟩
    show (b.tokens - count.toUInt64).toNat ≤ b.capacity.toNat
    omega

theorem Full.refill (h : b.Full) : b.refill.Full := ⟨Nat.le_refl _, h.capacity⟩

/-- `advance_time` takes the smaller of two numbers, and one of them is the capacity. -/
theorem Full.advanceTime (h : b.Full) (duration : Int64) : (b.advanceTime duration).Full := by
  refine ⟨?_, h.capacity⟩
  show (min _ b.capacity : UInt64).toNat ≤ b.capacity.toNat
  rw [← UInt64.le_iff_toNat_le]
  exact Std.min_le_right

/-- The share of a time, when the product has 64 bits. -/
theorem toNat_tokensToAdd (hd : 0 ≤ duration) (hp : b.capacity.toNat * duration.toNatClampNeg < 2 ^ 64) :
    (b.tokensToAdd duration).toNat =
      if b.Rounds duration then 1 else b.capacity.toNat * duration.toNatClampNeg / 1000 := by
  have hshare : (b.capacity * duration.toUInt64 / 1000).toNat =
      b.capacity.toNat * duration.toNatClampNeg / 1000 := by
    rw [UInt64.toNat_div, UInt64.toNat_mul, Int64.toNat_toUInt64_of_le hd, Nat.mod_eq_of_lt hp]
    rfl
  have hzero : b.capacity * duration.toUInt64 / 1000 = 0 ↔
      b.capacity.toNat * duration.toNatClampNeg < 1000 := by
    rw [← UInt64.toNat_inj, hshare]
    show _ / 1000 = 0 ↔ _
    omega
  unfold tokensToAdd
  by_cases hr : b.Rounds duration
  · rw [if_pos hr, if_pos ⟨hzero.mpr hr.1, hr.2⟩]
    rfl
  · rw [if_neg hr, if_neg fun h => hr ⟨hzero.mp h.1, h.2⟩]
    exact hshare

end Full

/-! ## The meter -/

inductive Call where
  | tryConsume (count : UInt32)
  | advanceTime (duration : Int64)

/-- A bucket, the tokens it gave out, the milliseconds that passed, and how often less than one token was due
    for a time. -/
structure Metered where
  bucket   : TokenBucket
  consumed : ℕ := 0
  elapsed  : ℕ := 0
  rounded  : ℕ := 0

/-- One call. -/
def Metered.call (m : Metered) : Call → Metered
  | .tryConsume count => { m with
      bucket := (m.bucket.tryConsume count).1
      consumed := m.consumed + if (m.bucket.tryConsume count).2 then count.toNat else 0 }
  | .advanceTime duration => { m with
      bucket := m.bucket.advanceTime duration
      elapsed := m.elapsed + duration.toNatClampNeg
      rounded := m.rounded + if m.bucket.Rounds duration then 1 else 0 }

/-- A sequence of calls on a new bucket. -/
def metered (capacity : UInt32) (calls : List Call) : Metered :=
  calls.foldl Metered.call { bucket := create capacity }

/-- Time does not run backwards, and its product with the capacity has 64 bits. -/
def Call.Proper (capacity : UInt32) : Call → Prop
  | .tryConsume _         => True
  | .advanceTime duration => 0 ≤ duration ∧ capacity.toNat * duration.toNatClampNeg < 2 ^ 64

instance (capacity : UInt32) : (c : Call) → Decidable (c.Proper capacity)
  | .tryConsume _  => isTrue trivial
  | .advanceTime _ => inferInstanceAs (Decidable (_ ∧ _))

/-- What was given out and what is left came from the first filling and from the time that passed. -/
structure Accounted (capacity : UInt32) (m : Metered) : Prop where
  full    : m.bucket.Full
  sized   : m.bucket.capacity.toNat = capacity.toNat
  balance : 1000 * (m.consumed + m.bucket.tokens.toNat) ≤
    1000 * capacity.toNat + capacity.toNat * m.elapsed + 1000 * m.rounded

section Accounted

variable {capacity : UInt32} {m : Metered}

theorem Accounted.tryConsume (h : Accounted capacity m) (count : UInt32) :
    Accounted capacity (m.call (.tryConsume count)) := by
  refine ⟨h.full.tryConsume count, ?_, ?_⟩
  · show (m.bucket.tryConsume count).1.capacity.toNat = capacity.toNat
    unfold TokenBucket.tryConsume
    split_ifs <;> exact h.sized
  · have hbalance := h.balance
    show 1000 * (m.consumed + (if (m.bucket.tryConsume count).2 then count.toNat else 0) +
      (m.bucket.tryConsume count).1.tokens.toNat) ≤ _ + capacity.toNat * m.elapsed + 1000 * m.rounded
    unfold TokenBucket.tryConsume
    by_cases hlt : m.bucket.tokens < count.toUInt64
    · simpa [if_pos hlt] using hbalance
    · -- what leaves the bucket is given out
      have hsum := toNat_tryConsume hlt
      simp only [if_neg hlt, if_true]
      omega

theorem Accounted.advanceTime (h : Accounted capacity m) {duration : Int64}
    (hp : (Call.advanceTime duration).Proper capacity) : Accounted capacity (m.call (.advanceTime duration)) := by
  refine ⟨h.full.advanceTime duration, h.sized, ?_⟩
  have hbalance := h.balance
  have htokens := h.full.tokens
  have hadded := toNat_tokensToAdd (b := m.bucket) hp.1 (by rw [h.sized]; exact hp.2)
  show 1000 * (m.consumed + (min (m.bucket.tokens + m.bucket.tokensToAdd duration) m.bucket.capacity).toNat) ≤
    1000 * capacity.toNat + capacity.toNat * (m.elapsed + duration.toNatClampNeg) +
      1000 * (m.rounded + if m.bucket.Rounds duration then 1 else 0)
  have hle : (min (m.bucket.tokens + m.bucket.tokensToAdd duration) m.bucket.capacity).toNat ≤
      m.bucket.tokens.toNat + (m.bucket.tokensToAdd duration).toNat := by
    have hmin : min (m.bucket.tokens + m.bucket.tokensToAdd duration) m.bucket.capacity ≤
        m.bucket.tokens + m.bucket.tokensToAdd duration := Std.min_le_left
    rw [UInt64.le_iff_toNat_le, UInt64.toNat_add] at hmin
    exact Nat.le_trans hmin (Nat.mod_le _ _)
  rw [Nat.mul_add capacity.toNat]
  by_cases hr : m.bucket.Rounds duration
  · rw [if_pos hr] at hadded ⊢
    omega
  · rw [if_neg hr] at hadded ⊢
    rw [h.sized] at hadded
    have hshare := Nat.div_mul_le_self (capacity.toNat * duration.toNatClampNeg) 1000
    omega

/-- **Every sequence of calls** keeps the account. -/
theorem accounted_metered {calls : List Call} (hcalls : ∀ c ∈ calls, c.Proper capacity)
    (h : Accounted capacity m) : Accounted capacity (calls.foldl Metered.call m) := by
  induction calls generalizing m with
  | nil => exact h
  | cons c calls ih =>
      refine ih (fun c' h' => hcalls c' (List.mem_cons_of_mem c h')) ?_
      cases c with
      | tryConsume count => exact h.tryConsume count
      | advanceTime duration => exact h.advanceTime (hcalls _ List.mem_cons_self)

end Accounted

/-- **The rate of the bucket.** Over any calls, what was given out is at most the capacity, the share of the time
    that passed, and one token for each positive time in which less was due; and the bucket is never overfull. -/
theorem rate_bounded (capacity : UInt32) (calls : List Call) (hcalls : ∀ c ∈ calls, c.Proper capacity) :
    (metered capacity calls).consumed ≤
        capacity.toNat + capacity.toNat * (metered capacity calls).elapsed / 1000 + (metered capacity calls).rounded ∧
      (metered capacity calls).bucket.tokens.toNat ≤ capacity.toNat := by
  have hstart : Accounted capacity { bucket := create capacity } := by
    refine ⟨full_create capacity, ?_, ?_⟩
    · exact UInt32.toNat_toUInt64 capacity
    · simp [create]
  have h : Accounted capacity (metered capacity calls) := accounted_metered hcalls hstart
  constructor
  · have hbalance := h.balance
    omega
  · have htokens := h.full.tokens
    rwa [h.sized] at htokens

/-- A bucket of five is emptied and waits for half a second. -/
theorem rate_bounded_five :
    let m := metered 5 [.tryConsume 5, .advanceTime 500, .tryConsume 3, .tryConsume 2]
    m.consumed = 7 ∧ m.consumed ≤ 5 + 5 * m.elapsed / 1000 + m.rounded :=
  ⟨by decide +kernel, (rate_bounded 5 _ (by decide +kernel)).1⟩

/-- A bucket of one is asked once a millisecond, and in ten milliseconds gives out eleven tokens. -/
theorem rate_exceeded :
    let m := metered 1 (.tryConsume 1 :: (List.replicate 10 [Call.advanceTime 1, .tryConsume 1]).flatten)
    m.elapsed = 10 ∧ m.consumed = 11 ∧ ¬ m.consumed ≤ 1 + 1 * m.elapsed / 1000 := by
  decide +kernel

end TokenBucket

end CollabEditor
