import CollabEditor.Protocol.Codec
import CollabEditor.Protocol.Frame
import Mathlib.Data.List.Sort

/-!
# `Protocol.Dump` — the payload of a message

`serialize` turns a message into JSON and dumps it. A string is dumped as it is but for quotes, backslashes and
control characters, which become two or six bytes; all of them are single bytes in UTF-8, so that the size of a
dumped text is a sum over its bytes (`escapedSize`). The content makes up the payload of a join response but
for `restSize`.

## Contents
- **Dumping.** `Json.dump`, `serialize`.
- **Sizes.** `escapedSize`, `length_dumpString`, and the size of an object.
- **Frames.** `Accepted`.
- **Join responses.** `restSize`, `serialize_docJoinResponse`, `accepted_docJoinResponse_iff`.
-/

namespace CollabEditor

namespace Json

/-! ## Dumping -/

/-- The letter of a two-byte escape. -/
def shortEscape : ℕ → Option UInt8
  | 0x08 => some 0x62
  | 0x09 => some 0x74
  | 0x0A => some 0x6E
  | 0x0C => some 0x66
  | 0x0D => some 0x72
  | 0x22 => some 0x22
  | 0x5C => some 0x5C
  | _    => none

/-- A hexadecimal digit, in lower case. -/
def hexDigit (n : ℕ) : UInt8 := UInt8.ofNat (if n < 10 then 0x30 + n else 0x57 + n)

/-- `dump_escaped`, of one character. -/
def dumpChar (c : Char) : List UInt8 :=
  match shortEscape c.toNat with
  | some letter => [0x5C, letter]
  | none        =>
      if c.toNat ≤ 0x1F then [0x5C, 0x75, 0x30, 0x30, hexDigit (c.toNat / 16), hexDigit (c.toNat % 16)]
      else String.utf8EncodeChar c

/-- A string between its quotes. -/
def dumpString (s : String) : List UInt8 := 0x22 :: (s.toList.flatMap dumpChar ++ [0x22])

/-- Values with commas between them. -/
def commas : List (List UInt8) → List UInt8
  | []             => []
  | [x]            => x
  | x :: y :: rest => x ++ 0x2C :: commas (y :: rest)

/-- A key and its value. -/
def dumpMember (member : String × List UInt8) : List UInt8 := dumpString member.1 ++ 0x3A :: member.2

mutual

/-- `dump`. The members of an object are in the order of their keys. -/
def dump : Json → List UInt8
  | .null           => Utf8.encode "null"
  | .bool b         => Utf8.encode (if b then "true" else "false")
  | .number whole   => Utf8.encode (toString whole)
  | .string s       => dumpString s
  | .array items    => 0x5B :: (commas (dumpItems items) ++ [0x5D])
  | .object members =>
      0x7B :: (commas (((dumpMembers members).insertionSort (·.1 ≤ ·.1)).map dumpMember) ++ [0x7D])

def dumpItems : List Json → List (List UInt8)
  | []            => []
  | item :: items => dump item :: dumpItems items

def dumpMembers : List (String × Json) → List (String × List UInt8)
  | []                      => []
  | (key, value) :: members => (key, dump value) :: dumpMembers members

end

/-! ## Sizes -/

/-- The bytes that a byte of a text takes in the dump. -/
def escapedByte (b : UInt8) : ℕ :=
  if (shortEscape b.toNat).isSome then 2 else if b.toNat ≤ 0x1F then 6 else 1

/-- The bytes that a text takes in the dump. -/
def escapedSize (bs : List UInt8) : ℕ := (bs.map escapedByte).sum

@[simp] theorem escapedSize_nil : escapedSize [] = 0 := rfl

@[simp] theorem escapedSize_append (as bs : List UInt8) : escapedSize (as ++ bs) = escapedSize as + escapedSize bs := by
  simp [escapedSize]

theorem shortEscape_of_ge {n : ℕ} (h : 128 ≤ n) : shortEscape n = none := by
  unfold shortEscape
  split <;> first | omega | rfl

theorem escapedByte_of_ge {b : UInt8} (h : 128 ≤ b.toNat) : escapedByte b = 1 := by
  unfold escapedByte
  rw [shortEscape_of_ge h, if_neg (by simp), if_neg (by omega)]

theorem length_le_escapedSize (bs : List UInt8) : bs.length ≤ escapedSize bs := by
  induction bs with
  | nil => exact Nat.le_refl 0
  | cons b bs ih =>
      have hb : 1 ≤ escapedByte b := by
        unfold escapedByte
        split_ifs <;> decide
      change bs.length + 1 ≤ escapedByte b + escapedSize bs
      omega

theorem escapedSize_of_ge {bs : List UInt8} (h : ∀ b ∈ bs, 128 ≤ b.toNat) : escapedSize bs = bs.length := by
  induction bs with
  | nil => rfl
  | cons b bs ih =>
      have hb := escapedByte_of_ge (h b List.mem_cons_self)
      have hrest := ih fun b' hb' => h b' (List.mem_cons_of_mem b hb')
      change escapedByte b + escapedSize bs = bs.length + 1
      omega

/-- Only single bytes are escaped. -/
theorem length_dumpChar (c : Char) : (dumpChar c).length = escapedSize (String.utf8EncodeChar c) := by
  by_cases hascii : c.toNat ≤ 127
  · have hbyte : (UInt8.ofNat c.toNat).toNat = c.toNat := by
      rw [UInt8.toNat_ofNat']
      omega
    have hencode : String.utf8EncodeChar c = [UInt8.ofNat c.toNat] := by
      unfold String.utf8EncodeChar
      exact if_pos hascii
    show (dumpChar c).length = _
    unfold dumpChar
    rw [hencode]
    simp only [escapedSize, List.map_cons, List.map_nil, List.sum_cons, List.sum_nil, escapedByte, hbyte]
    cases shortEscape c.toNat with
    | some letter => rfl
    | none =>
        by_cases hcontrol : c.toNat ≤ 0x1F
        · simp [hcontrol]
        · simp [hcontrol]
  · -- the bytes of any other character are above the ASCII range
    have hdump : dumpChar c = String.utf8EncodeChar c := by
      unfold dumpChar
      rw [shortEscape_of_ge (by omega)]
      exact if_neg (by omega)
    rw [hdump, escapedSize_of_ge]
    intro b hb
    unfold String.utf8EncodeChar at hb
    rw [if_neg (show ¬ c.val.toNat ≤ 0x7f from hascii)] at hb
    split_ifs at hb <;> simp only [List.mem_cons, List.not_mem_nil, or_false] at hb <;>
      rcases hb with rfl | rfl | rfl | rfl <;> rw [UInt8.toNat_ofNat'] <;> omega

/-- A dumped string takes the bytes of its text and two quotes. -/
theorem length_dumpString (s : String) : (dumpString s).length = escapedSize (Utf8.encode s) + 2 := by
  have htext : (s.toList.flatMap dumpChar).length = escapedSize (Utf8.encode s) := by
    unfold Utf8.encode
    induction s.toList with
    | nil => rfl
    | cons c cs ih => rw [List.flatMap_cons, List.flatMap_cons, List.length_append, escapedSize_append, ih, length_dumpChar]
  unfold dumpString
  rw [List.length_cons, List.length_append, htext]
  rfl

theorem length_commas (xs : List (List UInt8)) : (commas xs).length = (xs.map List.length).sum + (xs.length - 1) := by
  induction xs with
  | nil => rfl
  | cons x xs ih =>
      cases xs with
      | nil => simp [commas]
      | cons y rest =>
          rw [commas, List.length_append, List.length_cons, ih]
          simp only [List.map_cons, List.sum_cons, List.length_cons]
          omega

theorem dumpMembers_eq (members : List (String × Json)) :
    dumpMembers members = members.map fun member => (member.1, dump member.2) := by
  induction members with
  | nil => rfl
  | cons member members ih => rw [dumpMembers, ih, List.map_cons]

/-- The size of an object does not depend on the order of its members. -/
theorem length_dump_object (members : List (String × Json)) :
    (dump (.object members)).length =
      (members.map fun member => (dumpMember (member.1, dump member.2)).length).sum + (members.length - 1) + 2 := by
  have hperm := List.perm_insertionSort (fun a b : String × List UInt8 => a.1 ≤ b.1) (dumpMembers members)
  rw [dump, List.length_cons, List.length_append, length_commas, List.length_map, hperm.length_eq, List.map_map,
    List.Perm.sum_nat (hperm.map _), dumpMembers_eq, List.map_map, List.length_map]
  rfl

/-- Of two objects that differ in one string, the dumps differ by what the string takes. -/
theorem length_dump_string (front back : List (String × Json)) (key s : String) :
    (dump (.object (front ++ (key, .string s) :: back))).length =
      (dump (.object (front ++ (key, .string "") :: back))).length + escapedSize (Utf8.encode s) := by
  have hmember : (dumpMember (key, dump (.string s))).length =
      (dumpMember (key, dump (.string ""))).length + escapedSize (Utf8.encode s) := by
    have hempty : escapedSize (Utf8.encode "") = 0 := rfl
    simp only [dumpMember, dump, List.length_append, List.length_cons, length_dumpString, hempty]
    omega
  rw [length_dump_object, length_dump_object]
  simp only [List.map_append, List.map_cons, List.sum_append, List.sum_cons, List.length_append, List.length_cons, hmember]
  omega

end Json

/-- `serialize`. -/
def serialize (msg : ServerMsg UInt8) : Except JsonException (List UInt8) := Json.dump <$> msg.toJson

/-! ## Frames -/

/-- The header of the payload's frame passes `decode_frame_header`, and announces the payload's size. -/
def Accepted (payload : List UInt8) : Prop :=
  ∃ d₀ d₁ d₂ d₃ len, encodeFrame payload = d₀ :: d₁ :: d₂ :: d₃ :: payload ∧
    decodeFrameHeader d₀ d₁ d₂ d₃ = some len ∧ len.toNat = payload.length

theorem accepted_iff (payload : List UInt8) : Accepted payload ↔ payload.length ≤ maxPayloadSize.toNat := by
  constructor
  · rintro ⟨d₀, d₁, d₂, d₃, len, -, hlen, hsize⟩
    rw [← hsize]
    exact UInt32.le_iff_toNat_le.mp (decodeFrameHeader_some hlen).1
  · intro h
    have hsize : (UInt32.ofNat payload.length).toNat = payload.length :=
      Word.toNat_ofNat (Nat.lt_of_le_of_lt h maxPayloadSize.toNat_lt)
    have hle : UInt32.ofNat payload.length ≤ maxPayloadSize := by
      rw [UInt32.le_iff_toNat_le, hsize]
      exact h
    exact ⟨_, _, _, _, _, rfl, decodeFrameHeader_header hle, hsize⟩

/-! ## Join responses -/

/-- The size of a join response without its content. -/
def restSize (msg : DocJoinResponseMsg UInt8) : ℕ :=
  match serialize (.docJoinResponse { msg with content := [] }) with
  | .ok payload => payload.length
  | .error _    => 0

/-- **The payload of a join response** is its content, escaped, and the rest. -/
theorem serialize_docJoinResponse {msg : DocJoinResponseMsg UInt8} (hs : msg.success = true)
    (h : Utf8.Valid msg.content) :
    ∃ payload, serialize (.docJoinResponse msg) = .ok payload ∧
      payload.length = restSize msg + Json.escapedSize msg.content := by
  let front : List (String × Json) := [("type", .string "doc_join_response"), ("success", .bool msg.success),
    ("docId", .ofUInt32 msg.docId), ("title", .string msg.title)]
  let back : List (String × Json) := [("revision", .ofUInt32 msg.revision), ("role", .string msg.role),
    ("users", .array (msg.users.map UserInfo.toJson))]
  have hserial : ∀ content text, Json.ofBytes content = .ok (.string text) →
      serialize (.docJoinResponse { msg with content := content }) =
        .ok (Json.dump (.object (front ++ ("content", .string text) :: back))) := by
    intro content text htext
    show Json.dump <$> DocJoinResponseMsg.toJson { msg with content := content } = _
    unfold DocJoinResponseMsg.toJson
    dsimp only
    rw [if_pos hs, htext]
    rfl
  obtain ⟨text, htext, hencode⟩ := Json.ofBytes_of_valid h
  refine ⟨_, hserial msg.content text htext, ?_⟩
  have hrest : restSize msg = (Json.dump (.object (front ++ ("content", .string "") :: back))).length := by
    obtain ⟨s, hs, hnil⟩ := Json.ofBytes_of_valid Utf8.valid_nil
    obtain rfl : s = "" := String.toList_inj.mp (Utf8.bytes_eq_nil.mp hnil)
    unfold restSize
    rw [hserial [] "" hs]
  rw [hrest, ← hencode]
  exact Json.length_dump_string front back "content" text

/-- **A join response reaches the client** exactly if its content is valid UTF-8 and the whole is not too large. -/
theorem accepted_docJoinResponse_iff {msg : DocJoinResponseMsg UInt8} (hs : msg.success = true) :
    (∃ payload, serialize (.docJoinResponse msg) = .ok payload ∧ Accepted payload) ↔
      Utf8.Valid msg.content ∧ restSize msg + Json.escapedSize msg.content ≤ maxPayloadSize.toNat := by
  constructor
  · rintro ⟨payload, hpayload, haccepted⟩
    have hvalid : Utf8.Valid msg.content := by
      refine (toJson_ok_iff (.docJoinResponse msg)).mp ?_ hs
      cases hj : (ServerMsg.docJoinResponse msg).toJson with
      | ok j => exact ⟨j, rfl⟩
      | error e =>
          unfold serialize at hpayload
          rw [hj] at hpayload
          cases hpayload
    obtain ⟨payload', hpayload', hsize⟩ := serialize_docJoinResponse hs hvalid
    obtain rfl := Except.ok.inj (hpayload.symm.trans hpayload')
    exact ⟨hvalid, hsize ▸ (accepted_iff payload).mp haccepted⟩
  · rintro ⟨hvalid, hle⟩
    obtain ⟨payload, hpayload, hsize⟩ := serialize_docJoinResponse hs hvalid
    exact ⟨payload, hpayload, (accepted_iff payload).mpr (hsize ▸ hle)⟩

end CollabEditor
