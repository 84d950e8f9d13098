import CollabEditor.Lib.Utf8
import Mathlib.Data.List.Basic
import Mathlib.Tactic.SplitIfs

/-!
# `Lib.Utf16` — UTF-16 code units

The code units of a list of characters, and the characters of a list of units. A text that is the encoding of
characters has at most as many units as its UTF-8 encoding has bytes, and at least a third as many.

## Contents
- **Encoding.** `encode`, `decode`, `decode_encode`, `Valid`.
- **Sizes.** `length_encode`.
-/

namespace Utf16

/-- The code units of a character: one, or a surrogate pair. -/
def encodeChar (c : Char) : List UInt16 :=
  if c.toNat < 0x10000 then [UInt16.ofNat c.toNat]
  else [UInt16.ofNat (0xD800 + (c.toNat - 0x10000) / 0x400), UInt16.ofNat (0xDC00 + (c.toNat - 0x10000) % 0x400)]

/-- The code units of a list of characters. -/
def encode (cs : List Char) : List UInt16 := cs.flatMap encodeChar

/-- The characters of a list of code units, if it is an encoding. -/
def decode : List UInt16 → Option (List Char)
  | [] => some []
  | u :: us =>
      if u.toNat < 0xD800 ∨ 0xE000 ≤ u.toNat then (decode us).map (Char.ofNat u.toNat :: ·)
      else match us with
        | [] => none
        | v :: vs => (decode vs).map (Char.ofNat (0x10000 + (u.toNat - 0xD800) * 0x400 + (v.toNat - 0xDC00)) :: ·)

@[simp] theorem encode_nil : encode [] = [] := rfl

theorem encode_cons (c : Char) (cs : List Char) : encode (c :: cs) = encodeChar c ++ encode cs := rfl

theorem encode_append (cs ds : List Char) : encode (cs ++ ds) = encode cs ++ encode ds :=
  List.flatMap_append

theorem toNat_bounds (c : Char) : c.toNat < 0xD800 ∨ 0xE000 ≤ c.toNat ∧ c.toNat < 0x110000 := by
  rcases c.valid with h | ⟨h, h'⟩
  · exact .inl h
  · exact .inr ⟨by change 0xE000 ≤ c.val.toNat; omega, h'⟩

theorem decode_encode (cs : List Char) : decode (encode cs) = some cs := by
  induction cs with
  | nil => rfl
  | cons c cs ih =>
      have hbounds := toNat_bounds c
      rw [encode_cons]
      unfold encodeChar
      split_ifs with hone
      · have hunit : (UInt16.ofNat c.toNat).toNat = c.toNat := by
          rw [UInt16.toNat_ofNat', Nat.mod_eq_of_lt hone]
        rw [List.singleton_append, decode.eq_def]
        dsimp only
        rw [hunit, if_pos (by omega), ih, Char.ofNat_toNat]
        rfl
      · have hhigh : (UInt16.ofNat (0xD800 + (c.toNat - 0x10000) / 0x400)).toNat =
            0xD800 + (c.toNat - 0x10000) / 0x400 := by
          rw [UInt16.toNat_ofNat', Nat.mod_eq_of_lt (by omega)]
        have hlow : (UInt16.ofNat (0xDC00 + (c.toNat - 0x10000) % 0x400)).toNat =
            0xDC00 + (c.toNat - 0x10000) % 0x400 := by
          rw [UInt16.toNat_ofNat', Nat.mod_eq_of_lt (by omega)]
        have hchar : 0x10000 + (0xD800 + (c.toNat - 0x10000) / 0x400 - 0xD800) * 0x400 +
            (0xDC00 + (c.toNat - 0x10000) % 0x400 - 0xDC00) = c.toNat := by
          have := Nat.div_add_mod (c.toNat - 0x10000) 0x400
          omega
        rw [List.cons_append, List.singleton_append, decode.eq_def]
        dsimp only
        rw [hhigh, if_neg (by omega), ih, hlow, hchar, Char.ofNat_toNat]
        rfl

/-- The units are the encoding of a list of characters: no surrogate stands alone. -/
def Valid (us : List UInt16) : Prop := (decode us).map encode = some us

instance (us : List UInt16) : Decidable (Valid us) := inferInstanceAs (Decidable (_ = _))

theorem valid_iff {us : List UInt16} : Valid us ↔ ∃ cs, us = encode cs := by
  constructor
  · intro h
    obtain ⟨cs, -, hcs⟩ := Option.map_eq_some_iff.mp h
    exact ⟨cs, hcs.symm⟩
  · rintro ⟨cs, rfl⟩
    show (decode (encode cs)).map encode = _
    rw [decode_encode]
    rfl

theorem encode_inj {cs ds : List Char} (h : encode cs = encode ds) : cs = ds := by
  have hdecode := congrArg decode h
  rw [decode_encode, decode_encode] at hdecode
  exact Option.some.inj hdecode

theorem encodeChar_ne_nil (c : Char) : encodeChar c ≠ [] := by
  unfold encodeChar
  split_ifs
  · exact List.cons_ne_nil _ _
  · exact List.cons_ne_nil _ _

theorem encode_eq_nil {cs : List Char} : encode cs = [] ↔ cs = [] := by
  cases cs with
  | nil => exact ⟨fun _ => rfl, fun _ => rfl⟩
  | cons c cs =>
      refine ⟨fun h => ?_, fun h => absurd h (List.cons_ne_nil _ _)⟩
      exact absurd (List.append_eq_nil_iff.mp h).1 (encodeChar_ne_nil c)

/-! ## Sizes -/

/-- A surrogate pair is for the characters of four bytes. -/
theorem utf8Size_of_pair {c : Char} (h : ¬ c.toNat < 0x10000) : c.utf8Size = 4 := by
  have hval : ∀ w : UInt32, w.toNat < 0x10000 → ¬ c.val ≤ w := by
    intro w hw hle
    rw [UInt32.le_iff_toNat_le] at hle
    change c.toNat ≤ w.toNat at hle
    omega
  unfold Char.utf8Size
  dsimp only
  rw [if_neg (hval _ (by decide)), if_neg (hval _ (by decide)), if_neg (hval _ (by decide))]

/-- The other characters have three bytes at most. -/
theorem utf8Size_of_single {c : Char} (h : c.toNat < 0x10000) : c.utf8Size ≤ 3 := by
  have hval : c.val ≤ UInt32.ofNatLT 0xFFFF (by decide) := by
    rw [UInt32.le_iff_toNat_le]
    show c.toNat ≤ 0xFFFF
    omega
  unfold Char.utf8Size
  dsimp only
  split_ifs
  · exact (by decide : 1 ≤ 3)
  · exact (by decide : 2 ≤ 3)
  · exact Nat.le_refl 3

/-- The units of a character and its bytes. -/
theorem length_encodeChar (c : Char) :
    (encodeChar c).length ≤ c.utf8Size ∧ c.utf8Size ≤ 3 * (encodeChar c).length := by
  unfold encodeChar
  split_ifs with hone
  · exact ⟨c.utf8Size_pos, utf8Size_of_single hone⟩
  · rw [utf8Size_of_pair hone]
    exact ⟨(by decide : 2 ≤ 4), (by decide : 4 ≤ 3 * 2)⟩

/-- No text has more units than bytes, or more than three bytes a unit. -/
theorem length_encode (cs : List Char) :
    (encode cs).length ≤ (Utf8.bytes cs).length ∧ (Utf8.bytes cs).length ≤ 3 * (encode cs).length := by
  induction cs with
  | nil => exact ⟨Nat.le_refl _, Nat.le_refl _⟩
  | cons c cs ih =>
      have hc := length_encodeChar c
      have hbytes : (Utf8.bytes (c :: cs)).length = c.utf8Size + (Utf8.bytes cs).length := by
        show (String.utf8EncodeChar c ++ Utf8.bytes cs).length = _
        rw [List.length_append, String.length_utf8EncodeChar]
      rw [encode_cons, hbytes, List.length_append]
      omega

end Utf16
