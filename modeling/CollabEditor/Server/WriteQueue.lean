import CollabEditor.Lib.Machine
import CollabEditor.Protocol.Frame
import Mathlib.Data.Set.List

/-!
# `Server.WriteQueue` — the server's writes

`ClientSession::send` and `do_write`. Any thread may send. A call looks at `disconnected_` first and takes the write
mutex later, so calls that have passed the test are `inside` until they have it. The handler of a write takes it too,
unless the write failed: then it leaves the queue and `writing_` as they are, and nothing is written any more.

## Contents
- **The writing side.** `SessionWriter`, its events and `step`.
- **The invariant.** `Orderly`: idle, writing the front of the queue, or failed while writing it.
- **Runs.** `frames_written_in_order`; `read_of_written`: what the other side reads.
-/

namespace CollabEditor

/-- The writing side of `ClientSession`: `disconnected_`, the frames of the calls of `send` that have passed the
    test, `write_queue_`, `writing_` and the writes that were started and are not complete. No step reads the rest:
    all frames that were queued, handed to the socket, and written without an error. -/
structure SessionWriter where
  disconnected : Bool := false
  inside       : List (List UInt8) := []
  queue        : List (List UInt8) := []
  writing      : Bool := false
  outstanding  : List (List UInt8) := []
  enqueued     : List (List UInt8) := []
  handed       : List (List UInt8) := []
  completed    : List (List UInt8) := []
  deriving DecidableEq, Repr

namespace SessionWriter

inductive Event where
  /-- Some thread calls `send`. -/
  | call (payload : List UInt8)
  /-- The `k`-th call that is inside gets the mutex. -/
  | enqueue (k : ℕ)
  /-- The `k`-th write that is outstanding completes, or fails. -/
  | complete (k : ℕ) (ok : Bool)
  /-- A read of the session fails. -/
  | readFails
  deriving DecidableEq, Repr

/-- `ClientSession::send` up to the mutex. -/
def call (s : SessionWriter) (payload : List UInt8) : SessionWriter :=
  if s.disconnected then s else { s with inside := s.inside ++ [encodeFrame payload] }

/-- `ClientSession::do_write`: the front of the queue is handed to `async_write`. -/
def doWrite (s : SessionWriter) : SessionWriter :=
  match s.queue with
  | []         => { s with writing := false }
  | front :: _ => { s with outstanding := s.outstanding ++ [front], handed := s.handed ++ [front] }

/-- `ClientSession::send` under the mutex. -/
def enqueue (s : SessionWriter) (frame : List UInt8) : SessionWriter :=
  let s := { s with queue := s.queue ++ [frame], enqueued := s.enqueued ++ [frame] }
  if !s.writing then doWrite { s with writing := true } else s

/-- The handler of a write that succeeded. -/
def written (s : SessionWriter) (frame : List UInt8) : SessionWriter :=
  let s := { s with queue := s.queue.tail, completed := s.completed ++ [frame] }
  if !s.queue.isEmpty then s.doWrite else { s with writing := false }

def step (s : SessionWriter) : Event → Option SessionWriter
  | .call payload => some (s.call payload)
  | .enqueue k => s.inside[k]?.map fun frame => { s with inside := s.inside.eraseIdx k }.enqueue frame
  | .complete k ok => s.outstanding[k]?.map fun frame =>
      let s := { s with outstanding := s.outstanding.eraseIdx k }
      if ok then s.written frame else { s with disconnected := true }
  | .readFails => some { s with disconnected := true }

@[simp] theorem queue_doWrite (s : SessionWriter) : s.doWrite.queue = s.queue := by
  unfold doWrite
  split <;> simp_all

@[simp] theorem queue_enqueue (s : SessionWriter) (frame : List UInt8) :
    (s.enqueue frame).queue = s.queue ++ [frame] := by
  simp only [enqueue]
  split_ifs
  · rw [queue_doWrite]
  · rfl

/-! ## The invariant -/

/-- Nothing is queued, or the front of the queue is being written, or its write has failed. -/
inductive Orderly (s : SessionWriter) : Prop where
  | idle (hw : s.writing = false) (hq : s.queue = []) (ho : s.outstanding = []) (hh : s.handed = s.completed)
      (he : s.enqueued = s.completed)
  | busy (front : List UInt8) (rest : List (List UInt8)) (hw : s.writing = true) (hq : s.queue = front :: rest)
      (ho : s.outstanding = [front]) (hh : s.handed = s.completed ++ [front])
      (he : s.enqueued = s.completed ++ front :: rest)
  | failed (front : List UInt8) (rest : List (List UInt8)) (hw : s.writing = true) (hd : s.disconnected = true)
      (hq : s.queue = front :: rest) (ho : s.outstanding = []) (hh : s.handed = s.completed ++ [front])
      (he : s.enqueued = s.completed ++ front :: rest)

section Orderly

variable {s s' : SessionWriter}

/-- Calls that wait for the mutex, and a disconnect, change nothing of it. -/
theorem Orderly.aside (h : s.Orderly) (inside : List (List UInt8)) {disconnected : Bool}
    (hd : s.disconnected = true → disconnected = true) :
    Orderly { s with inside := inside, disconnected := disconnected } := by
  cases h with
  | idle hw hq ho hh he => exact .idle hw hq ho hh he
  | busy front rest hw hq ho hh he => exact .busy front rest hw hq ho hh he
  | failed front rest hw hdis hq ho hh he => exact .failed front rest hw (hd hdis) hq ho hh he

/-- **A frame is queued**: it is written at once if nothing is, and waits otherwise. -/
theorem Orderly.enqueue (h : s.Orderly) (frame : List UInt8) : (s.enqueue frame).Orderly := by
  unfold SessionWriter.enqueue
  cases h with
  | idle hw hq ho hh he =>
      simp only [hw, Bool.not_false, if_true, doWrite, hq, List.nil_append]
      -- the queue was empty, so the frame is its front and is written
      refine .busy frame [] rfl rfl ?_ ?_ ?_
      · simp [ho]
      · simp [hh]
      · simp [he]
  | busy front rest hw hq ho hh he =>
      simp only [hw, Bool.not_true, Bool.false_eq_true, if_false]
      refine .busy front (rest ++ [frame]) rfl ?_ ho hh ?_
      · simp [hq]
      · simp [he]
  | failed front rest hw hd hq ho hh he =>
      simp only [hw, Bool.not_true, Bool.false_eq_true, if_false]
      -- `writing_` is still set, so the frame waits for a write that never comes
      refine .failed front (rest ++ [frame]) rfl hd ?_ ho hh ?_
      · simp [hq]
      · simp [he]

/-- A write can only complete while one is outstanding, and it is that of the front of the queue. -/
theorem Orderly.complete_cases (h : s.Orderly) {k : ℕ} {ok : Bool} (hs : s.step (.complete k ok) = some s') :
    ∃ front rest, k = 0 ∧ s.queue = front :: rest ∧ s.outstanding = [front] ∧
      s' = if ok then { s with outstanding := [] }.written front
        else { s with outstanding := [], disconnected := true } := by
  obtain ⟨frame, hframe, rfl⟩ := Option.map_eq_some_iff.mp hs
  cases h with
  | idle hw hq ho hh he =>
      rw [ho] at hframe
      cases hframe
  | failed front rest hw hd hq ho hh he =>
      rw [ho] at hframe
      cases hframe
  | busy front rest hw hq ho hh he =>
      cases k with
      | succ k =>
          rw [ho] at hframe
          cases hframe
      | zero =>
          have hfront : frame = front := by
            rw [ho] at hframe
            exact (Option.some.inj hframe).symm
          subst hfront
          refine ⟨frame, rest, rfl, hq, ho, ?_⟩
          rw [ho]
          cases ok <;> rfl

/-- **A write completes**: the next frame is written if there is one. A write that failed leaves its frame in front
    of the queue. -/
theorem Orderly.complete (h : s.Orderly) {k : ℕ} {ok : Bool} (hs : s.step (.complete k ok) = some s') :
    s'.Orderly := by
  obtain ⟨front, rest, -, hq, ho, rfl⟩ := h.complete_cases hs
  cases h with
  | idle hw hq' ho' hh he =>
      rw [hq] at hq'
      cases hq'
  | failed front' rest' hw hd hq' ho' hh he =>
      rw [ho] at ho'
      cases ho'
  | busy front' rest' hw hq' ho' hh he =>
      rw [hq] at hq'
      cases hq'
      cases ok with
      -- the error path returns before `writing_` and the queue are touched
      | false => exact .failed front rest hw rfl hq rfl hh he
      | true =>
          simp only [if_true, written, hq, List.tail_cons]
          cases rest with
          | nil => exact .idle rfl rfl rfl hh he
          | cons next rest =>
              refine .busy next rest hw rfl rfl ?_ ?_
              · simp [doWrite, hh]
              · simp [doWrite, he]

theorem Orderly.step (h : s.Orderly) {e : Event} (hs : s.step e = some s') : s'.Orderly := by
  cases e with
  | call payload =>
      cases hs
      unfold SessionWriter.call
      split_ifs
      · exact h
      · exact h.aside _ id
  | enqueue k =>
      obtain ⟨frame, -, rfl⟩ := Option.map_eq_some_iff.mp hs
      exact (h.aside _ id).enqueue frame
  | complete k ok => exact h.complete hs
  | readFails =>
      cases hs
      exact h.aside _ fun _ => rfl

/-- **What a step takes from the queue** is the frame whose write completes in it. -/
theorem Orderly.queue_step (h : s.Orderly) {e : Event} (hs : s.step e = some s') :
    (∃ frames, s'.queue = s.queue ++ frames) ∨
      ∃ front, e = .complete 0 true ∧ s.outstanding = [front] ∧ s.queue = front :: s'.queue := by
  cases e with
  | call payload =>
      cases hs
      refine .inl ⟨[], ?_⟩
      unfold SessionWriter.call
      split_ifs <;> simp
  | readFails =>
      cases hs
      exact .inl ⟨[], (List.append_nil _).symm⟩
  | enqueue k =>
      obtain ⟨frame, -, rfl⟩ := Option.map_eq_some_iff.mp hs
      exact .inl ⟨[frame], queue_enqueue _ frame⟩
  | complete k ok =>
      obtain ⟨front, rest, rfl, hq, ho, rfl⟩ := h.complete_cases hs
      cases ok with
      | false => exact .inl ⟨[], (List.append_nil _).symm⟩
      | true =>
          refine .inr ⟨front, rfl, ho, ?_⟩
          rw [hq]
          simp only [if_true, written, List.tail_cons]
          cases rest <;> rfl

end Orderly

/-! ## Runs -/

theorem orderly_run {es : List Event} {s : SessionWriter} (hr : Machine.run step {} es = some s) : s.Orderly :=
  Machine.run_preserves (I := Orderly) (fun _ _ _ h hs => h.step hs) (.idle rfl rfl rfl rfl rfl) hr

/-- Only encoded payloads come into the queue. -/
structure Encoded (s : SessionWriter) : Prop where
  inside   : ∀ frame ∈ s.inside, frame ∈ Set.range encodeFrame
  enqueued : ∀ frame ∈ s.enqueued, frame ∈ Set.range encodeFrame

section Encoded

variable {s s' : SessionWriter}

@[simp] theorem enqueued_doWrite (s : SessionWriter) : s.doWrite.enqueued = s.enqueued := by
  unfold doWrite
  split <;> rfl

@[simp] theorem inside_doWrite (s : SessionWriter) : s.doWrite.inside = s.inside := by
  unfold doWrite
  split <;> rfl

theorem Encoded.step (h : s.Encoded) {e : Event} (hs : s.step e = some s') : s'.Encoded := by
  cases e with
  | call payload =>
      cases hs
      unfold SessionWriter.call
      split_ifs
      · exact h
      · refine ⟨?_, h.enqueued⟩
        intro frame hmem
        -- what the call brings is the encoding of its payload
        rcases List.mem_append.mp hmem with hmem | hmem
        · exact h.inside frame hmem
        · exact ⟨payload, (List.mem_singleton.mp hmem).symm⟩
  | enqueue k =>
      obtain ⟨frame, hframe, rfl⟩ := Option.map_eq_some_iff.mp hs
      have hinside : ∀ f ∈ s.inside.eraseIdx k, f ∈ Set.range encodeFrame :=
        fun f hf => h.inside f (List.mem_of_mem_eraseIdx hf)
      have henqueued : ∀ f ∈ s.enqueued ++ [frame], f ∈ Set.range encodeFrame := by
        intro f hf
        rcases List.mem_append.mp hf with hf | hf
        · exact h.enqueued f hf
        · rw [List.mem_singleton.mp hf]
          exact h.inside frame (List.mem_of_getElem? hframe)
      simp only [SessionWriter.enqueue]
      split_ifs
      · exact ⟨by rw [inside_doWrite]; exact hinside, by rw [enqueued_doWrite]; exact henqueued⟩
      · exact ⟨hinside, henqueued⟩
  | complete k ok =>
      obtain ⟨frame, -, rfl⟩ := Option.map_eq_some_iff.mp hs
      cases ok with
      | false => exact ⟨h.inside, h.enqueued⟩
      | true =>
          simp only [if_true, written]
          split_ifs
          · exact ⟨by rw [inside_doWrite]; exact h.inside, by rw [enqueued_doWrite]; exact h.enqueued⟩
          · exact ⟨h.inside, h.enqueued⟩
  | readFails =>
      cases hs
      exact ⟨h.inside, h.enqueued⟩

end Encoded

/-- What has been written is the beginning of what was queued. -/
theorem Orderly.completed_prefix_enqueued {s : SessionWriter} (h : s.Orderly) : s.completed <+: s.enqueued := by
  cases h with
  | idle hw hq ho hh he => exact ⟨[], (List.append_nil _).trans he.symm⟩
  | busy front rest hw hq ho hh he => exact ⟨front :: rest, he.symm⟩
  | failed front rest hw hd hq ho hh he => exact ⟨front :: rest, he.symm⟩

/-- **The other side reads the payloads in the order of the queue**: of what has been written, a reader finds the
    first payloads that were queued, and nothing is left over. -/
theorem read_of_written {es : List Event} {s : SessionWriter} (hr : Machine.run step {} es = some s) :
    ∃ payloads : List (List UInt8), s.enqueued = payloads.map encodeFrame ∧
      ((∀ p ∈ payloads, p.length ≤ maxPayloadSize.toNat) →
        frameReader.drain s.completed.flatten = (payloads.take s.completed.length, [])) := by
  have hstart : Encoded {} := ⟨by simp, by simp⟩
  have hencoded : s.Encoded := Machine.run_preserves (fun _ _ _ h hs => h.step hs) hstart hr
  have hrange : s.enqueued ∈ Set.range (List.map encodeFrame) := by
    rw [Set.range_list_map]
    exact hencoded.enqueued
  obtain ⟨payloads, hpayloads⟩ := hrange
  refine ⟨payloads, hpayloads.symm, fun hsizes => ?_⟩
  -- what has been written is a prefix of the frames, so it is the frames of a prefix of the payloads
  have hwritten : s.completed = (payloads.take s.completed.length).map encodeFrame := by
    rw [List.map_take, hpayloads]
    exact List.prefix_iff_eq_take.mp (orderly_run hr).completed_prefix_enqueued
  refine drain_frames ⟨?_, fun p hp => hsizes p (List.mem_of_mem_take hp), ?_⟩
  · rw [← hwritten, List.append_nil]
  · intro m rest h
    cases h

/-- **Frames are written once and in order.** At any time at most one write is outstanding; the frames handed to
    the socket are those queued, in the order of the queue; the one being written is the front of the queue and leaves
    it when its write completes; and what is queued without a write outstanding is queued on a dead session. -/
theorem frames_written_in_order {es : List Event} {s : SessionWriter} (hr : Machine.run step {} es = some s) :
    s.outstanding.length ≤ 1 ∧
      s.handed <+: s.enqueued ∧
      (∀ frame ∈ s.outstanding, s.handed = s.completed ++ [frame] ∧ s.enqueued = s.completed ++ s.queue ∧
        s.queue.head? = some frame) ∧
      (∀ e s', s.step e = some s' → (∃ frames, s'.queue = s.queue ++ frames) ∨
        ∃ front, e = .complete 0 true ∧ s.outstanding = [front] ∧ s.queue = front :: s'.queue) ∧
      (s.queue ≠ [] → s.outstanding = [] → s.disconnected = true) := by
  have h := orderly_run hr
  refine ⟨?_, ?_, ?_, fun e s' hs => h.queue_step hs, ?_⟩
  · cases h with
    | idle hw hq ho hh he => simp [ho]
    | busy front rest hw hq ho hh he => simp [ho]
    | failed front rest hw hd hq ho hh he => simp [ho]
  · cases h with
    | idle hw hq ho hh he =>
        have hall : s.handed = s.enqueued := hh.trans he.symm
        exact hall ▸ List.prefix_refl _
    | busy front rest hw hq ho hh he =>
        rw [hh, he]
        exact ⟨rest, by simp⟩
    | failed front rest hw hd hq ho hh he =>
        rw [hh, he]
        exact ⟨rest, by simp⟩
  · intro frame hmem
    cases h with
    | idle hw hq ho hh he =>
        rw [ho] at hmem
        cases hmem
    | failed front rest hw hd hq ho hh he =>
        rw [ho] at hmem
        cases hmem
    | busy front rest hw hq ho hh he =>
        rw [ho] at hmem
        rw [List.mem_singleton.mp hmem, hh, he, hq]
        exact ⟨rfl, rfl, rfl⟩
  · intro hne hout
    cases h with
    | idle hw hq ho hh he => exact absurd hq hne
    | busy front rest hw hq ho hh he =>
        rw [ho] at hout
        cases hout
    | failed front rest hw hd hq ho hh he => exact hd

/-- Two threads send while the first frame is being written. -/
def twoThreads : List Event :=
  [.call [1], .enqueue 0, .call [2], .call [3], .enqueue 1, .complete 0 true, .enqueue 0, .complete 0 true]

theorem frames_written_in_order_twoThreads :
    ∃ s, Machine.run step {} twoThreads = some s ∧ s.handed = [[1], [3], [2]].map encodeFrame ∧
      s.handed <+: s.enqueued := by
  have hrun : (Machine.run step {} twoThreads).isSome := by decide +kernel
  obtain ⟨s, hs⟩ := Option.isSome_iff_exists.mp hrun
  refine ⟨s, hs, ?_, (frames_written_in_order hs).2.1⟩
  have hhanded : (Machine.run step {} twoThreads).map handed = some ([[1], [3], [2]].map encodeFrame) := by
    decide +kernel
  rw [hs] at hhanded
  exact Option.some.inj hhanded

end SessionWriter

end CollabEditor
