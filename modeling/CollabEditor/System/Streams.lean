import CollabEditor.Client.NetworkManager
import CollabEditor.Server.ClientSession

/-!
# `System.Streams` — the two receivers of a framed stream

The client buffers what arrives and takes frames off the buffer; the server reads four bytes and then a body.
Both find the frames of the stream, `Frames`, however it is cut into reads.
-/

namespace CollabEditor

open Framing

/-- An encoded list of payloads within the limit is its frames, with nothing left. -/
theorem frames_encoded {payloads : List (List UInt8)} (h : ∀ p ∈ payloads, p.length ≤ maxPayloadSize.toNat) :
    Frames (payloads.map encodeFrame).flatten payloads [] := by
  refine ⟨(List.append_nil _).symm, h, ?_⟩
  intro m rest hnext
  cases hnext

/-- **Framing is lossless and independent of the cuts.** A list of payloads within the limit, encoded and cut
    into reads in any way, is emitted by the client as it is and leaves the buffer empty. And whatever the
    stream is, its frames up to the first header over the limit are determined; the client emits exactly
    these, for every cut and every timing of the close, and the server's header and body reads deliver
    a prefix of them at any time, can always go on until no read completes, and have then delivered all of
    them; the stream may come in any pieces. -/
theorem framing_exact :
    (∀ (payloads : List (List UInt8)) (es : List SocketEvent),
      (∀ p ∈ payloads, p.length ≤ maxPayloadSize.toNat) →
      NetworkManager.received es = (payloads.map encodeFrame).flatten →
      (es.foldl NetworkManager.react {}).messages = payloads ∧
        (es.foldl NetworkManager.react {}).rxBuffer = [] ∧
        (es.foldl NetworkManager.react {}).socket = .connected) ∧
    ∀ es : List SocketEvent, ∃ payloads tail,
      (∀ payloads' tail', Frames (NetworkManager.received es) payloads' tail' ↔ payloads' = payloads ∧ tail' = tail) ∧
      (es.foldl NetworkManager.react {}).messages = payloads ∧
      (∀ (ss : List SessionEvent) (s : SessionReader), Machine.run SessionReader.step {} ss = some s →
        SessionReader.arrived ss = NetworkManager.received es →
        s.delivered <+: payloads ∧ (s.Waiting → s.delivered = payloads) ∧
          ∃ reads s', (∀ e ∈ reads, e.Completes) ∧ Machine.run SessionReader.step s reads = some s' ∧
            s'.Waiting ∧ s'.delivered = payloads) ∧
      ∀ cuts : List (List UInt8), cuts.flatten = NetworkManager.received es →
        ∃ (ss : List SessionEvent) (s : SessionReader), SessionReader.pieces ss = cuts ∧
          Machine.run SessionReader.step {} ss = some s ∧ s.Waiting ∧ s.delivered = payloads := by
  constructor
  · intro payloads es hsizes hstream
    have h := NetworkManager.receiving_run es
    have hdrain := drain_frames (frames_encoded hsizes)
    rw [← hstream] at hdrain
    have hopen : (es.foldl NetworkManager.react {}).socket = .connected := by
      rw [h.connected, hdrain]
      exact nofun
    refine ⟨by rw [h.messages, hdrain], ?_, hopen⟩
    rw [h.buffer (by rw [hopen]; exact nofun), hdrain]
  · intro es
    have h := NetworkManager.receiving_run es
    have hframes := frames_drain (NetworkManager.received es)
    have hwaiting : ∀ (ss : List SessionEvent) (s : SessionReader), Machine.run SessionReader.step {} ss = some s →
        SessionReader.arrived ss = NetworkManager.received es → s.Waiting →
        s.delivered = (frameReader.drain (NetworkManager.received es)).1 := by
      intro ss s hr harrived hw
      have hreading := SessionReader.reading_run hr
      rw [harrived] at hreading
      rw [hreading.frames, Reader.drain_stuck (hreading.stuck_of_waiting hw)]
      exact (List.append_nil _).symm
    refine ⟨_, (frameReader.drain (NetworkManager.received es)).2, ?_, h.messages, ?_, ?_⟩
    · intro payloads' tail'
      constructor
      · intro hframes'
        rw [drain_frames hframes']
        exact ⟨rfl, rfl⟩
      · rintro ⟨rfl, rfl⟩
        exact hframes
    · intro ss s hr harrived
      have hreading := SessionReader.reading_run hr
      rw [harrived] at hreading
      refine ⟨?_, hwaiting ss s hr harrived, ?_⟩
      · rw [hreading.frames]
        exact List.prefix_append _ _
      · -- the pending reads complete, and nothing more arrives
        obtain ⟨reads, s', hreads, hr', hw⟩ := s.exists_waiting
        refine ⟨reads, s', hreads, hr', hw, hwaiting (ss ++ reads) s' (Machine.run_append.mpr ⟨s, hr, hr'⟩) ?_ hw⟩
        rw [SessionReader.arrived_append, SessionReader.arrived_completions hreads, List.append_nil, harrived]
    · intro cuts hcuts
      obtain ⟨s, hr⟩ := SessionReader.run_pieces cuts {}
      obtain ⟨reads, s', hreads, hr', hw⟩ := s.exists_waiting
      have hrun := Machine.run_append.mpr ⟨s, hr, hr'⟩
      refine ⟨_, s', ?_, hrun, hw, hwaiting _ s' hrun ?_ hw⟩
      · unfold SessionReader.pieces
        rw [List.filterMap_append, List.filterMap_map]
        have hnone := SessionReader.pieces_completions hreads
        unfold SessionReader.pieces at hnone
        rw [hnone, List.append_nil]
        exact List.filterMap_some
      · rw [SessionReader.arrived_append, SessionReader.arrived_completions hreads, List.append_nil, ← hcuts]
        unfold SessionReader.arrived
        rw [List.map_map]
        exact congrArg List.flatten (List.map_id cuts)

/-- Two frames, one of them empty, and a header that announces more than the limit. -/
def refusedStream : List UInt8 := ([[7, 8], []].map encodeFrame).flatten ++ [1, 0, 0, 1, 9]

/-- Cut inside the first header, the stream delivers the two payloads and nothing more. -/
theorem framing_exact_refused :
    ∃ ss s, SessionReader.pieces ss = [refusedStream.take 3, refusedStream.drop 3] ∧
      Machine.run SessionReader.step {} ss = some s ∧ s.Waiting ∧ s.delivered = [[7, 8], []] := by
  have hframes : Frames (NetworkManager.received [.readyRead refusedStream true]) [[7, 8], []] [1, 0, 0, 1, 9] := by
    refine ⟨rfl, by decide, ?_⟩
    intro m rest hnext
    cases hnext
  obtain ⟨payloads, tail, hunique, _, _, hpieces⟩ := framing_exact.2 [.readyRead refusedStream true]
  obtain ⟨rfl, _⟩ := (hunique _ _).mp hframes
  exact hpieces [refusedStream.take 3, refusedStream.drop 3] (by decide)

end CollabEditor
