import Mathlib.Logic.Basic

/-!
# `Lib.Utf8` — valid UTF-8 in lists of bytes

`Valid` is the core library's `ByteArray.IsValidUTF8` for lists. It is closed under concatenation, which is
what editing at the boundaries of code points needs.
-/

namespace Utf8

/-- The bytes are the encoding of a list of characters. -/
def Valid (bs : List UInt8) : Prop := bs.toByteArray.IsValidUTF8

instance (bs : List UInt8) : Decidable (Valid bs) := inferInstanceAs (Decidable (ByteArray.IsValidUTF8 _))

/-- The encoding of a string. -/
def encode (s : String) : List UInt8 := s.toList.flatMap String.utf8EncodeChar

theorem valid_iff {bs : List UInt8} :
    Valid bs ↔ ∃ cs : List Char, bs = cs.flatMap String.utf8EncodeChar := by
  constructor
  · rintro ⟨cs, h⟩
    refine ⟨cs, ?_⟩
    unfold List.utf8Encode at h
    have hdata := congrArg (fun b => b.data.toList) h
    simpa using hdata
  · rintro ⟨cs, rfl⟩
    exact ⟨cs, rfl⟩

theorem valid_encode (s : String) : Valid (encode s) := valid_iff.mpr ⟨s.toList, rfl⟩

theorem valid_nil : Valid [] := valid_iff.mpr ⟨[], rfl⟩

theorem Valid.append {as bs : List UInt8} (ha : Valid as) (hb : Valid bs) : Valid (as ++ bs) := by
  obtain ⟨cs, rfl⟩ := valid_iff.mp ha
  obtain ⟨ds, rfl⟩ := valid_iff.mp hb
  exact valid_iff.mpr ⟨cs ++ ds, List.flatMap_append.symm⟩

theorem valid_encodeChar_append_iff {c : Char} {bs : List UInt8} :
    Valid (String.utf8EncodeChar c ++ bs) ↔ Valid bs := by
  have hbytes : (String.utf8EncodeChar c ++ bs).toByteArray = [c].utf8Encode ++ bs.toByteArray := by
    rw [List.toByteArray_append]
    simp [List.utf8Encode]
  unfold Valid
  rw [hbytes]
  exact ByteArray.isValidUTF8_utf8Encode_singleton_append_iff

/-- What follows a valid text in a valid text is valid. -/
theorem Valid.of_append {as bs : List UInt8} (h : Valid (as ++ bs)) (ha : Valid as) : Valid bs := by
  obtain ⟨cs, rfl⟩ := valid_iff.mp ha
  induction cs with
  | nil => exact h
  | cons c cs ih =>
      rw [List.flatMap_cons, List.append_assoc] at h
      exact ih (valid_encodeChar_append_iff.mp h) (valid_iff.mpr ⟨cs, rfl⟩)

/-- The encoding of a list of characters. -/
def bytes (cs : List Char) : List UInt8 := cs.flatMap String.utf8EncodeChar

@[simp] theorem bytes_nil : bytes [] = [] := rfl

theorem bytes_append (cs ds : List Char) : bytes (cs ++ ds) = bytes cs ++ bytes ds := List.flatMap_append

theorem valid_iff_bytes {bs : List UInt8} : Valid bs ↔ ∃ cs, bs = bytes cs := valid_iff

theorem bytes_eq_nil {cs : List Char} : bytes cs = [] ↔ cs = [] := by
  cases cs with
  | nil => exact ⟨fun _ => rfl, fun _ => rfl⟩
  | cons c cs =>
      refine ⟨fun h => ?_, fun h => absurd h (List.cons_ne_nil _ _)⟩
      have hsize := congrArg List.length (List.append_eq_nil_iff.mp h).1
      rw [String.length_utf8EncodeChar] at hsize
      exact absurd hsize (Nat.ne_of_gt c.utf8Size_pos)

/-- Different characters have different bytes. -/
theorem bytes_inj {cs ds : List Char} (h : bytes cs = bytes ds) : cs = ds := by
  have hbytes : (String.ofList cs).toByteArray = (String.ofList ds).toByteArray :=
    congrArg List.toByteArray h
  have hlist := congrArg String.toList (String.toByteArray_inj.mp hbytes)
  rwa [String.toList_ofList, String.toList_ofList] at hlist

/-- The string with this encoding. -/
def decode (bs : List UInt8) : Option String :=
  if h : Valid bs then some (String.ofByteArray bs.toByteArray h) else none

theorem encode_ofByteArray {bs : List UInt8} (h : Valid bs) :
    encode (String.ofByteArray bs.toByteArray h) = bs := by
  have hdata := congrArg (fun b : ByteArray => b.data.toList)
    (String.utf8Encode_toList (b := String.ofByteArray bs.toByteArray h))
  unfold List.utf8Encode at hdata
  simpa [encode] using hdata

/-- Valid bytes are the encoding of the string they decode to. -/
theorem decode_of_valid {bs : List UInt8} (h : Valid bs) : ∃ s, decode bs = some s ∧ encode s = bs :=
  ⟨_, dif_pos h, encode_ofByteArray h⟩

end Utf8
