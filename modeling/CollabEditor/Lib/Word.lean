import Mathlib.Algebra.Group.Nat.Defs
import Mathlib.Data.List.Basic

/-!
# `Lib.Word` — 32-bit words read as numbers

The core library states the wrap-around of `UInt32`; the lemmas here are the readings without it, under
the bound that excludes it, and the ones about `min`, `max` and the reinterpretation as `Int32`.
-/

namespace Word

theorem toNat_add {a b : UInt32} (h : a.toNat + b.toNat < 2 ^ 32) :
    (a + b).toNat = a.toNat + b.toNat := by
  rw [UInt32.toNat_add, Nat.mod_eq_of_lt h]

theorem toNat_sub {a b : UInt32} (h : b.toNat ≤ a.toNat) : (a - b).toNat = a.toNat - b.toNat :=
  UInt32.toNat_sub_of_le a b (UInt32.le_iff_toNat_le.mpr h)

theorem toNat_ofNat {n : ℕ} (h : n < 2 ^ 32) : (UInt32.ofNat n).toNat = n := by
  rw [UInt32.toNat_ofNat', Nat.mod_eq_of_lt h]

/-- A word changes when anything but zero is added. -/
theorem eq_zero_of_add {a b : UInt32} (h : a + b = a) : b = 0 := by
  have hsum := congrArg (· - a) h
  simpa [UInt32.add_comm a b] using hsum

theorem eq_zero_of_sub {a b : UInt32} (h : a - b = a) : b = 0 := by
  have hsum : a + b = a := by
    have hback := congrArg (· + b) h
    simpa using hback.symm
  exact eq_zero_of_add hsum

@[simp] theorem toNat_min (a b : UInt32) : (min a b).toNat = min a.toNat b.toNat := by
  show (if a ≤ b then a else b).toNat = _
  split_ifs with h <;> rw [UInt32.le_iff_toNat_le] at h <;> omega

@[simp] theorem toNat_max (a b : UInt32) : (max a b).toNat = max a.toNat b.toNat := by
  show (if a ≤ b then b else a).toNat = _
  split_ifs with h <;> rw [UInt32.le_iff_toNat_le] at h <;> omega

theorem min_comm (a b : UInt32) : min a b = min b a := by
  apply UInt32.toNat_inj.mp
  simp [Nat.min_comm]

theorem max_comm (a b : UInt32) : max a b = max b a := by
  apply UInt32.toNat_inj.mp
  simp [Nat.max_comm]

/-- Below `2^31` the signed reading of a word is its unsigned one. -/
theorem toInt_toInt32 {a : UInt32} (h : a.toNat < 2 ^ 31) : a.toInt32.toInt = a.toNat := by
  show a.toBitVec.toInt = (a.toBitVec.toNat : Int)
  exact BitVec.toInt_eq_toNat_of_lt (by show 2 * a.toNat < 2 ^ 32; omega)

/-- The signed order of two words below `2^31` is their unsigned order. -/
theorem sub_neg_iff {a b : UInt32} (ha : a.toNat < 2 ^ 31) (hb : b.toNat < 2 ^ 31) :
    a.toInt32 - b.toInt32 < 0 ↔ a.toNat < b.toNat := by
  rw [Int32.lt_iff_toInt_lt, Int32.toInt_sub, toInt_toInt32 ha, toInt_toInt32 hb, Int32.toInt_zero,
    Int.bmod_eq_of_le (by omega) (by omega)]
  omega

/-- The signed difference of two words, wherever they lie. -/
theorem toInt_sub_toInt32 (a b : UInt32) :
    (a.toInt32 - b.toInt32).toInt = ((a.toNat : Int) - b.toNat).bmod (2 ^ 32) := by
  rw [Int32.toInt_sub]
  show (a.toBitVec.toInt - b.toBitVec.toInt).bmod (2 ^ 32) = _
  rw [BitVec.toInt_eq_toNat_bmod, BitVec.toInt_eq_toNat_bmod]
  simp

theorem toNat_sub_wrap {a b : UInt32} (h : a.toNat < b.toNat) :
    (a - b).toNat = a.toNat + 2 ^ 32 - b.toNat := by
  have hb := b.toNat_lt
  rw [UInt32.toNat_sub, Nat.mod_eq_of_lt (by omega)]
  omega

end Word
