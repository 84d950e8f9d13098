import CollabEditor.Lib.Framing
import CollabEditor.Lib.Word
import Mathlib.Tactic.IntervalCases
import Mathlib.Tactic.SplitIfs

/-!
# `Protocol.Frame` — length-prefixed frames

`encode_frame` and `decode_frame_header`: four bytes of length, the most significant first, and the payload.
The length field is 32 bits wide whatever the payload is; a header announcing more than
`MAX_PAYLOAD_SIZE` is refused.

## Contents
- **The codec.** `encodeFrame`, `decodeFrameHeader` and their round trips.
- **The reader.** `frameReader`: the frames at the front of a stream, an instance of `Lib.Framing`.
- **Whole streams.** `Frames stream payloads tail`: what the frames of a stream are, said without a reader;
  `drain_frames`: the reader finds them.
-/

namespace CollabEditor

/-- `MAX_PAYLOAD_SIZE`: 16 MiB. -/
def maxPayloadSize : UInt32 := 16 * 1024 * 1024

/-- The four bytes of a length, the most significant first. -/
def frameHeader (len : UInt32) : List UInt8 :=
  [((len >>> 24) &&& 0xFF).toUInt8, ((len >>> 16) &&& 0xFF).toUInt8, ((len >>> 8) &&& 0xFF).toUInt8,
    (len &&& 0xFF).toUInt8]

/-- `encode_frame`. -/
def encodeFrame (payload : List UInt8) : List UInt8 :=
  frameHeader (UInt32.ofNat payload.length) ++ payload

/-- The length four header bytes announce. -/
def announcedLength (d₀ d₁ d₂ d₃ : UInt8) : UInt32 :=
  (d₀.toUInt32 <<< 24) ||| (d₁.toUInt32 <<< 16) ||| (d₂.toUInt32 <<< 8) ||| d₃.toUInt32

/-- `decode_frame_header`, on the four bytes it reads. -/
def decodeFrameHeader (d₀ d₁ d₂ d₃ : UInt8) : Option UInt32 :=
  let len := announcedLength d₀ d₁ d₂ d₃
  if maxPayloadSize < len then none else some len

/-! ## Round trips of the header -/

theorem announcedLength_header (len : UInt32) :
    announcedLength ((len >>> 24) &&& 0xFF).toUInt8 ((len >>> 16) &&& 0xFF).toUInt8
      ((len >>> 8) &&& 0xFF).toUInt8 (len &&& 0xFF).toUInt8 = len := by
  apply UInt32.toBitVec_inj.mp
  apply BitVec.eq_of_getLsbD_eq
  intro i hi
  simp only [announcedLength, UInt32.toBitVec_or, BitVec.getLsbD_or, UInt32.toBitVec_shiftLeft,
    UInt32.toBitVec_shiftRight, UInt32.toBitVec_and, UInt8.toBitVec_toUInt32, UInt32.toBitVec_toUInt8]
  -- bit by bit: each of the four bytes owns eight of them
  interval_cases i <;> simp

theorem frameHeader_announcedLength (d₀ d₁ d₂ d₃ : UInt8) :
    frameHeader (announcedLength d₀ d₁ d₂ d₃) = [d₀, d₁, d₂, d₃] := by
  have hbyte : ∀ a b : UInt8, (∀ i < 8, a.toBitVec.getLsbD i = b.toBitVec.getLsbD i) → a = b :=
    fun a b h => UInt8.toBitVec_inj.mp (BitVec.eq_of_getLsbD_eq h)
  simp only [frameHeader, List.cons.injEq, and_true]
  refine ⟨hbyte _ _ ?_, hbyte _ _ ?_, hbyte _ _ ?_, hbyte _ _ ?_⟩
  all_goals
    intro i hi
    simp only [announcedLength, UInt32.toBitVec_or, UInt32.toBitVec_shiftLeft, UInt32.toBitVec_shiftRight,
      UInt32.toBitVec_and, UInt8.toBitVec_toUInt32, UInt32.toBitVec_toUInt8]
    interval_cases i <;> simp

/-- The encoded header of a payload within the limit announces its size. -/
theorem decodeFrameHeader_header {len : UInt32} (h : len ≤ maxPayloadSize) :
    decodeFrameHeader ((len >>> 24) &&& 0xFF).toUInt8 ((len >>> 16) &&& 0xFF).toUInt8
      ((len >>> 8) &&& 0xFF).toUInt8 (len &&& 0xFF).toUInt8 = some len := by
  unfold decodeFrameHeader
  rw [announcedLength_header]
  exact if_neg (UInt32.not_lt.mpr h)

theorem decodeFrameHeader_some {d₀ d₁ d₂ d₃ : UInt8} {len : UInt32}
    (h : decodeFrameHeader d₀ d₁ d₂ d₃ = some len) :
    len ≤ maxPayloadSize ∧ [d₀, d₁, d₂, d₃] = frameHeader len := by
  unfold decodeFrameHeader at h
  simp only at h
  split_ifs at h with hlen
  cases h
  exact ⟨UInt32.not_lt.mp hlen, (frameHeader_announcedLength _ _ _ _).symm⟩

/-! ## The reader -/

/-- The first complete frame of a buffer. -/
def nextFrame : List UInt8 → Framing.Next UInt8 (List UInt8)
  | d₀ :: d₁ :: d₂ :: d₃ :: rest => match decodeFrameHeader d₀ d₁ d₂ d₃ with
    | none     => .refused
    | some len =>
        if rest.length < len.toNat then .more else .unit (rest.take len.toNat) (rest.drop len.toNat)
  | _ => .more

theorem nextFrame_unit {b payload rest : List UInt8} (h : nextFrame b = .unit payload rest) :
    ∃ d₀ d₁ d₂ d₃ len, decodeFrameHeader d₀ d₁ d₂ d₃ = some len ∧ payload.length = len.toNat ∧
      b = d₀ :: d₁ :: d₂ :: d₃ :: (payload ++ rest) := by
  unfold nextFrame at h
  split at h
  next d₀ d₁ d₂ d₃ tail =>
    split at h
    next => cases h
    next len hlen =>
      split_ifs at h with hshort
      cases h
      refine ⟨d₀, d₁, d₂, d₃, len, hlen, ?_, by rw [List.take_append_drop]⟩
      rw [List.length_take]
      omega
  next => cases h

theorem nextFrame_of_header {d₀ d₁ d₂ d₃ : UInt8} {len : UInt32} {payload : List UInt8}
    (h : decodeFrameHeader d₀ d₁ d₂ d₃ = some len) (hlen : payload.length = len.toNat) (rest : List UInt8) :
    nextFrame (d₀ :: d₁ :: d₂ :: d₃ :: (payload ++ rest)) = .unit payload rest := by
  simp only [nextFrame, h]
  rw [if_neg (by rw [List.length_append]; omega), ← hlen, List.take_left, List.drop_left]

theorem nextFrame_refused {b : List UInt8} (h : nextFrame b = .refused) :
    ∃ d₀ d₁ d₂ d₃ rest, b = d₀ :: d₁ :: d₂ :: d₃ :: rest ∧ decodeFrameHeader d₀ d₁ d₂ d₃ = none := by
  unfold nextFrame at h
  split at h
  next d₀ d₁ d₂ d₃ rest =>
    split at h
    next hd => exact ⟨d₀, d₁, d₂, d₃, rest, rfl, hd⟩
    next => split_ifs at h
  next => cases h

/-- Frames at the front of a stream: what follows a complete frame, or a refused header, cannot change it. -/
def frameReader : Framing.Reader UInt8 (List UInt8) where
  next := nextFrame
  shorter := by
    intro b payload rest h
    obtain ⟨d₀, d₁, d₂, d₃, len, _, _, rfl⟩ := nextFrame_unit h
    simp only [List.length_cons, List.length_append]
    omega
  unit_append := by
    intro b payload rest y h
    obtain ⟨d₀, d₁, d₂, d₃, len, hd, hlen, rfl⟩ := nextFrame_unit h
    simpa using nextFrame_of_header hd hlen (rest ++ y)
  refused_append := by
    intro b y h
    obtain ⟨d₀, d₁, d₂, d₃, rest, rfl, hd⟩ := nextFrame_refused h
    simp [nextFrame, hd]

/-! ## The frames of a whole stream -/

/-- The stream is the frames of the payloads, none of them over the limit, and a tail that does not start
    with a complete frame: it is empty, breaks off, or starts with a header over the limit. -/
def Frames (stream : List UInt8) (payloads : List (List UInt8)) (tail : List UInt8) : Prop :=
  stream = (payloads.map encodeFrame).flatten ++ tail ∧
    (∀ p ∈ payloads, p.length ≤ maxPayloadSize.toNat) ∧ frameReader.Stuck tail

theorem next_encodeFrame {payload : List UInt8} (h : payload.length ≤ maxPayloadSize.toNat)
    (rest : List UInt8) : frameReader.next (encodeFrame payload ++ rest) = .unit payload rest := by
  have hsize : (UInt32.ofNat payload.length).toNat = payload.length :=
    Word.toNat_ofNat (Nat.lt_of_le_of_lt h maxPayloadSize.toNat_lt)
  have hle : UInt32.ofNat payload.length ≤ maxPayloadSize := by
    rw [UInt32.le_iff_toNat_le, hsize]
    exact h
  exact nextFrame_of_header (decodeFrameHeader_header hle) hsize.symm rest

/-- **The reader finds the frames of a stream**, and there is one way to cut it into frames. -/
theorem drain_frames {stream tail : List UInt8} {payloads : List (List UInt8)}
    (h : Frames stream payloads tail) : frameReader.drain stream = (payloads, tail) := by
  obtain ⟨rfl, hsizes, hstuck⟩ := h
  induction payloads with
  | nil => exact Framing.Reader.drain_stuck hstuck
  | cons p ps ih =>
      rw [List.map_cons, List.flatten_cons, List.append_assoc,
        Framing.Reader.drain_unit (next_encodeFrame (hsizes p List.mem_cons_self) _),
        ih fun q hq => hsizes q (List.mem_cons_of_mem p hq)]

/-- Every stream has frames and a tail. -/
theorem frames_drain (stream : List UInt8) :
    Frames stream (frameReader.drain stream).1 (frameReader.drain stream).2 := by
  induction hn : stream.length using Nat.strongRecOn generalizing stream with
  | _ n ih =>
      by_cases hs : frameReader.Stuck stream
      · rw [Framing.Reader.drain_stuck hs]
        exact ⟨rfl, fun p hp => absurd hp List.not_mem_nil, hs⟩
      · obtain ⟨p, rest, h⟩ : ∃ p rest, frameReader.next stream = .unit p rest := by
          simpa [Framing.Reader.Stuck] using hs
        obtain ⟨hrest, hsizes, hstuck⟩ := ih rest.length (hn ▸ frameReader.shorter h) rest rfl
        obtain ⟨d₀, d₁, d₂, d₃, len, hd, hlen, hstream⟩ := nextFrame_unit h
        obtain ⟨hle, hheader⟩ := decodeFrameHeader_some hd
        rw [Framing.Reader.drain_unit h]
        refine ⟨?_, ?_, hstuck⟩
        · have henc : encodeFrame p = d₀ :: d₁ :: d₂ :: d₃ :: p := by
            unfold encodeFrame
            rw [hlen, UInt32.ofNat_toNat, ← hheader]
            rfl
          rw [List.map_cons, List.flatten_cons, List.append_assoc, ← hrest, henc, hstream]
          rfl
        · intro q hq
          rcases List.mem_cons.mp hq with rfl | hmem
          · rw [hlen]
            exact UInt32.le_iff_toNat_le.mp hle
          · exact hsizes q hmem

end CollabEditor
