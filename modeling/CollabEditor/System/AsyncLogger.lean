import CollabEditor.Core.MPSCMemory

/-!
# `System.AsyncLogger` — every line is written once

The threads of the server log into an `MPSCQueue`, and one thread of the logger takes the lines out of it and
writes each to every sink. `shutdown` asks this thread to stop and waits for it. It then takes what is left,
until it finds the queue empty, and flushes the sinks.

What a sink holds is always what it held at the start, with a prefix of the queue's values after it. So a line
is written at most once and the lines of one thread are in the order it logged them in. And when `shutdown`
returns, every line whose `log` had returned before is in every sink, and flushed.

## Contents
- **The code.** `LogLevel`, `LogSink`, `AsyncLogger`; `log`, `requestStop`, `writerStep`.
- **The queue.** `enqueueStep_frame`, `consumerStep_returned`: what a step of it is to the logger.
- **The invariant.** `Kept`; `step_kept`. What is left of a line that was linked before the stop, `Drained`.
- **Runs.** `lines`, `lines_written`.
- **The end.** `weight`; `shutdown_returns`.
-/

namespace CollabEditor

/-! ## The code -/

inductive LogLevel where
  | debug
  | info
  | warn
  | error
  deriving DecidableEq, Repr, Inhabited

namespace LogLevel

/-- The value of the enumeration. -/
def value : LogLevel → ℕ
  | .debug => 0
  | .info  => 1
  | .warn  => 2
  | .error => 3

/-- `level_str`. -/
def levelStr : LogLevel → String
  | .debug => "DEBUG"
  | .info  => "INFO"
  | .warn  => "WARN"
  | .error => "ERROR"

end LogLevel

/-- A line, and the level it was logged at. -/
abbrev LogEntry := LogLevel × String

/-- `FileSink`, whose file is open or not, and `ConsoleSink`. -/
inductive SinkKind where
  | file (isOpen : Bool)
  | console
  deriving DecidableEq, Repr

/-- What is on a sink's streams: the file, or `std::cout` and `std::cerr`. -/
abbrev SinkText := String × String

/-- `file_ << formatted << "\n"`, or `out << formatted << "\n"`. -/
def SinkKind.append : SinkKind → SinkText → LogEntry → SinkText
  | .file isOpen, text, entry => if isOpen then (text.1 ++ (entry.2 ++ "\n"), text.2) else text
  | .console, text, entry =>
      if LogLevel.warn.value ≤ entry.1.value then (text.1, text.2 ++ (entry.2 ++ "\n"))
      else (text.1 ++ (entry.2 ++ "\n"), text.2)

/-- `ILogSink`: what has been written to it, and how much of that has left its buffers. -/
structure LogSink where
  kind    : SinkKind
  text    : SinkText := ("", "")
  flushed : SinkText := ("", "")
  deriving DecidableEq, Repr

namespace LogSink

def write (sink : LogSink) (entry : LogEntry) : LogSink := { sink with text := sink.kind.append sink.text entry }

def flush (sink : LogSink) : LogSink := { sink with flushed := sink.text }

end LogSink

/-- Which of its two loops the writer is in, and whether it has written since the last flush. -/
inductive WriterLoop where
  | running (wrote : Bool)
  | last
  deriving DecidableEq, Repr

/-- Where the writer thread is in `writer_loop`. -/
inductive WriterPc where
  | check
  | dequeue (loop : WriterLoop)
  | dispatch (loop : WriterLoop) (entry : LogEntry) (k : ℕ)
  | flush (loop : WriterLoop) (k : ℕ)
  | sleep
  | ended
  deriving DecidableEq, Repr

namespace WriterLoop

def isLast : WriterLoop → Bool
  | .running _ => false
  | .last => true

/-- Where the writer goes when `try_dequeue` returns nothing. -/
def emptied : WriterLoop → WriterPc
  | .running wrote => if wrote then .flush (.running wrote) 0 else .sleep
  | .last => .flush .last 0

/-- Where it is in the loop when a line has been dispatched. -/
def wrote : WriterLoop → WriterLoop
  | .running _ => .running true
  | .last => .last

end WriterLoop

/-- `AsyncLogger`, with its writer thread. -/
structure AsyncLogger where
  queue    : MPSCQueue LogEntry
  sinks    : List LogSink
  minLevel : LogLevel := .info
  stop     : Bool := false
  writer   : WriterPc := .check

namespace AsyncLogger

/-- The producers that the queue has room for, as its declaration has no number of its own. -/
def maxProducers : ℕ := 64

/-- The constructor, with the address of the queue's sentinel. -/
def new (sinks : List LogSink) (minLevel : LogLevel) (sentinel : ℕ) : AsyncLogger :=
  { queue := .new sentinel, sinks := sinks, minLevel := minLevel }

/-- The line for a message that is logged at `time`. -/
def format (time : String) (level : LogLevel) (message : String) : String :=
  "[" ++ time ++ "] [" ++ level.levelStr ++ "] " ++ message

/-- The thread `p` calls `log`. A message below the level is dropped; a line goes into the queue in a node at
    `address`. -/
def log (s : AsyncLogger) (p : ℕ) (level : LogLevel) (time message : String) (address : ℕ) : Option AsyncLogger :=
  if level.value < s.minLevel.value then if s.queue.producers p = .idle then some s else none
  else do
    let q ← s.queue.callEnqueue p (level, format time level message) address
    return { s with queue := q }

/-- `writer_thread_.request_stop()` in `shutdown`, which then waits until the writer has ended. -/
def requestStop (s : AsyncLogger) : Option AsyncLogger := if s.stop then none else some { s with stop := true }

/-- The next step of `queue_.try_dequeue()`, which takes those that the queue's consumer takes. -/
def dequeueStep (s : AsyncLogger) (loop : WriterLoop) : Option AsyncLogger :=
  match s.queue.consumer with
  | .idle => do
      let q ← s.queue.callTryDequeue
      match q.consumer with
      | .idle => return { s with queue := q, writer := loop.emptied }
      | _ => return { s with queue := q, writer := .dequeue loop }
  | _ => do
      let q ← s.queue.consumerStep maxProducers
      match q.consumer with
      | .idle => do
          let entry ← q.returned.getLast?
          return { s with queue := q, writer := .dispatch loop entry 0 }
      | _ => return { s with queue := q, writer := .dequeue loop }

/-- `dispatch`: the line is written to the sink `k`, and so on. -/
def dispatchStep (s : AsyncLogger) (loop : WriterLoop) (entry : LogEntry) (k : ℕ) : AsyncLogger :=
  match s.sinks[k]? with
  | some sink => { s with sinks := s.sinks.set k (sink.write entry), writer := .dispatch loop entry (k + 1) }
  | none => { s with writer := .dequeue loop.wrote }

/-- `for (auto& sink : sinks_) sink->flush()`, at the sink `k`. -/
def flushStep (s : AsyncLogger) (loop : WriterLoop) (k : ℕ) : AsyncLogger :=
  match s.sinks[k]? with
  | some sink => { s with sinks := s.sinks.set k sink.flush, writer := .flush loop (k + 1) }
  | none => { s with writer := if loop.isLast then .ended else .sleep }

/-- The next step of `writer_loop`. -/
def writerStep (s : AsyncLogger) : Option AsyncLogger :=
  match s.writer with
  | .check => some { s with writer := .dequeue (if s.stop then .last else .running false) }
  | .dequeue loop => s.dequeueStep loop
  | .dispatch loop entry k => some (s.dispatchStep loop entry k)
  | .flush loop k => some (s.flushStep loop k)
  | .sleep => some { s with writer := .check }
  | .ended => none

inductive Event where
  | log (p : ℕ) (level : LogLevel) (time message : String) (address : ℕ)
  | producer (p : ℕ)
  | requestStop
  | writer
  deriving DecidableEq, Repr

/-- One step of one thread. -/
def step (s : AsyncLogger) : Event → Option AsyncLogger
  | .log p level time message address => s.log p level time message address
  | .producer p => do
      let q ← s.queue.producerStep maxProducers p
      return { s with queue := q }
  | .requestStop => s.requestStop
  | .writer => s.writerStep

/-- The lines of `p`: what it has logged, and not below the level. -/
def lines (minLevel : LogLevel) (p : ℕ) (es : List Event) : List LogEntry := es.filterMap fun e => match e with
  | .log p' level time message _ =>
      if p' = p ∧ ¬ level.value < minLevel.value then some (level, format time level message) else none
  | _ => none

/-! ## The queue -/

/-- A producer's step of the queue takes nothing out of it. -/
theorem producerStep_frame {q q' : MPSCQueue LogEntry} {p : ℕ} (hs : q.producerStep maxProducers p = some q') :
    q.linked <+: q'.linked ∧ q'.enqueued = q.enqueued ∧ q'.returned = q.returned ∧ q'.consumer = q.consumer := by
  rcases MPSCQueue.producerStep_cases hs with ⟨tail, slotsUsed, slots, hazards, pc, -, rfl⟩ |
    ⟨node, t, n, own, -, -, -, -, rfl⟩
  · exact ⟨List.prefix_refl _, rfl, rfl, rfl⟩
  · exact ⟨List.prefix_append _ _, rfl, rfl, rfl⟩

theorem callEnqueue_frame {q q' : MPSCQueue LogEntry} {p address : ℕ} {entry : LogEntry}
    (hs : q.callEnqueue p entry address = some q') :
    q'.linked = q.linked ∧ q'.enqueued = Function.update q.enqueued p (q.enqueued p ++ [entry]) ∧
      q'.returned = q.returned ∧ q'.consumer = q.consumer := by
  unfold MPSCQueue.callEnqueue at hs
  split_ifs at hs
  cases hs
  exact ⟨rfl, rfl, rfl, rfl⟩

theorem callTryDequeue_frame {q q' : MPSCQueue LogEntry} (hs : q.callTryDequeue = some q') :
    q'.linked = q.linked ∧ q'.enqueued = q.enqueued ∧ q'.returned = q.returned := by
  unfold MPSCQueue.callTryDequeue at hs
  split at hs
  · obtain ⟨n, -, hs⟩ := Option.bind_eq_some_iff.mp hs
    split at hs <;> (cases hs; exact ⟨rfl, rfl, rfl⟩)
  · cases hs

/-- **A step of a call of `try_dequeue`** is its last one exactly where a value is returned. -/
theorem consumerStep_returned {q q' : MPSCQueue LogEntry} (hs : q.consumerStep maxProducers = some q') :
    q'.linked = q.linked ∧ q'.enqueued = q.enqueued ∧
      ((q'.returned = q.returned ∧ q'.consumer ≠ .idle) ∨
        ∃ v, q'.returned = q.returned ++ [v] ∧ q'.consumer = .idle) := by
  unfold MPSCQueue.consumerStep at hs
  cases hpc : q.consumer with
  | idle =>
      rw [hpc] at hs
      cases hs
  | loadTail next =>
      rw [hpc] at hs
      cases hs
      refine ⟨rfl, rfl, .inl ⟨rfl, ?_⟩⟩
      dsimp only
      split_ifs <;> nofun
  | exchangeTail next =>
      rw [hpc] at hs
      cases hs
      exact ⟨rfl, rfl, .inl ⟨rfl, nofun⟩⟩
  | take next =>
      rw [hpc] at hs
      obtain ⟨n, -, hs⟩ := Option.bind_eq_some_iff.mp hs
      obtain ⟨old, -, hs⟩ := Option.bind_eq_some_iff.mp hs
      dsimp only at hs
      split_ifs at hs
      · cases hs
        exact ⟨rfl, rfl, .inl ⟨rfl, nofun⟩⟩
      · cases hs
        exact ⟨rfl, rfl, .inr ⟨_, rfl, rfl⟩⟩
  | reclaim value stage =>
      rw [hpc] at hs
      obtain ⟨hlinked, henqueued, -, ⟨hreturned, stage', hpc'⟩ | ⟨hreturned, hpc'⟩⟩ :=
        MPSCQueue.reclaimStep_cases hs
      · refine ⟨hlinked, henqueued, .inl ⟨hreturned, ?_⟩⟩
        rw [hpc']
        nofun
      · exact ⟨hlinked, henqueued, .inr ⟨value, hreturned, hpc'⟩⟩

/-! ## The invariant -/

section

variable {s s' : AsyncLogger} {start : List LogSink}

/-- The writer has been asked to stop, and knows it. -/
def InLast : WriterPc → Prop
  | .dequeue loop | .dispatch loop _ _ | .flush loop _ => loop.isLast
  | .ended => True
  | _ => False

/-- It has found the queue empty since. -/
def Emptied : WriterPc → Prop
  | .flush loop _ => loop.isLast
  | .ended => True
  | _ => False

/-- And it has flushed the sink `k`. -/
def Flushed (k : ℕ) : WriterPc → Prop
  | .flush loop j => loop.isLast ∧ k < j
  | .ended => True
  | _ => False

theorem InLast.of_emptied {loop : WriterLoop} (h : InLast loop.emptied) : loop.isLast := by
  cases loop with
  | running wrote => cases wrote <;> cases h
  | last => rfl

theorem not_flushed_emptied (loop : WriterLoop) (k : ℕ) : ¬ Flushed k loop.emptied := by
  intro h
  cases loop with
  | running wrote => cases wrote <;> simp [WriterLoop.emptied, Flushed, WriterLoop.isLast] at h
  | last => exact Nat.not_lt_zero k h.2

theorem emptied_ne_dispatch (loop loop' : WriterLoop) (entry : LogEntry) (k : ℕ) :
    loop.emptied ≠ .dispatch loop' entry k := by
  cases loop with
  | running wrote => cases wrote <;> nofun
  | last => nofun

theorem isLast_wrote (loop : WriterLoop) : loop.wrote.isLast = loop.isLast := by cases loop <;> rfl

/-- The lines that the sink `k` has been given. -/
def given (s : AsyncLogger) (k : ℕ) : List LogEntry := match s.writer with
  | .dispatch _ _ j => if k < j then s.queue.returned else s.queue.returned.dropLast
  | _ => s.queue.returned

/-- What a sink that was `sink₀` at the start is now. -/
def Holds (s : AsyncLogger) (k : ℕ) (sink₀ sink : LogSink) : Prop :=
  sink.kind = sink₀.kind ∧ sink.text = (s.given k).foldl sink₀.kind.append sink₀.text ∧
    (Flushed k s.writer → sink.flushed = sink.text)

/-- The invariant, where the sinks were `start` at the start. -/
structure Kept (start : List LogSink) (s : AsyncLogger) : Prop where
  queue   : ∃ rest todo kept, s.queue.Memory maxProducers rest todo kept
  idle    : (∀ loop, s.writer ≠ .dequeue loop) → s.queue.consumer = .idle
  entry   : ∀ loop entry k, s.writer = .dispatch loop entry k → ∃ front, s.queue.returned = front ++ [entry]
  sinks   : ∀ k sink₀, start[k]? = some sink₀ → ∃ sink, s.sinks[k]? = some sink ∧ s.Holds k sink₀ sink
  stopped : InLast s.writer → s.stop = true

/-- What was in the queue when the logger was asked to stop is not left behind. -/
def Drained (linked : List (ℕ × LogEntry)) (s : AsyncLogger) : Prop :=
  linked <+: s.queue.linked ∧ (Emptied s.writer → linked.length ≤ s.queue.returned.length)

/-- A step of the queue that returns nothing. -/
theorem Kept.frame {q : MPSCQueue LogEntry} (h : s.Kept start)
    (hq : ∃ rest todo kept, q.Memory maxProducers rest todo kept) (hreturned : q.returned = s.queue.returned)
    (hidle : (∀ loop, s.writer ≠ .dequeue loop) → q.consumer = .idle) : { s with queue := q }.Kept start := by
  have hgiven : ∀ k, { s with queue := q }.given k = s.given k := by
    intro k
    unfold given
    rw [hreturned]
  refine ⟨hq, hidle, fun loop entry k hw => ?_, fun k sink₀ hk => ?_, h.stopped⟩
  · rw [hreturned]
    exact h.entry loop entry k hw
  · obtain ⟨sink, hsink, hkind, htext, hflushed⟩ := h.sinks k sink₀ hk
    exact ⟨sink, hsink, hkind, by rw [hgiven]; exact htext, hflushed⟩

/-- The writer goes on, and the sinks have been given the same. -/
theorem Kept.goes {w : WriterPc} (h : s.Kept start) (hidle : s.queue.consumer = .idle)
    (hentry : ∀ loop entry k, w ≠ .dispatch loop entry k)
    (hgiven : ∀ k, start[k]?.isSome → s.given k = s.queue.returned)
    (hflushed : ∀ k, start[k]?.isSome → Flushed k w → Flushed k s.writer) (hstopped : InLast w → s.stop = true) : { s with writer := w }.Kept start := by
  refine ⟨h.queue, fun _ => hidle, fun loop entry k hw => absurd hw (hentry loop entry k), fun k sink₀ hk => ?_,
    hstopped⟩
  obtain ⟨sink, hsink, hkind, htext, hfl⟩ := h.sinks k sink₀ hk
  have hsome : start[k]?.isSome := by
    rw [hk]
    rfl
  refine ⟨sink, hsink, hkind, ?_, fun hw => hfl (hflushed k hsome hw)⟩
  rw [htext, hgiven k hsome]
  unfold given
  cases w with
  | dispatch loop entry j => exact absurd rfl (hentry loop entry j)
  | check | dequeue _ | flush _ _ | sleep | ended => rfl

/-- **A step of `try_dequeue`.** -/
theorem dequeueStep_kept {loop : WriterLoop} (h : s.Kept start) (hw : s.writer = .dequeue loop)
    (hs : s.dequeueStep loop = some s') : s'.Kept start := by
  obtain ⟨rest, todo, kept, hq⟩ := h.queue
  unfold dequeueStep at hs
  split at hs
  · -- the call
    obtain ⟨q, hcall, hs⟩ := Option.bind_eq_some_iff.mp hs
    obtain ⟨hmemory, -, -⟩ := MPSCQueue.tryDequeue_memory hq hcall
    obtain ⟨-, -, hreturned⟩ := callTryDequeue_frame hcall
    have hframe := h.frame ⟨rest, todo, kept, hmemory⟩ hreturned fun hne => absurd hw (hne loop)
    split at hs
    · cases hs
      refine hframe.goes ‹_› (emptied_ne_dispatch loop) (fun k _ => by unfold given; rw [hw])
        (fun k _ hf => absurd hf (not_flushed_emptied loop k)) fun hlast => ?_
      refine h.stopped ?_
      rw [hw]
      exact InLast.of_emptied hlast
    · cases hs
      rw [← hw]
      exact hframe
  · obtain ⟨q, hstep, hs⟩ := Option.bind_eq_some_iff.mp hs
    obtain ⟨rest', todo', kept', hmemory, -, -⟩ := MPSCQueue.consumer_memory hq (by decide) hstep
    obtain ⟨-, -, ⟨hreturned, hpc⟩ | ⟨v, hreturned, hpc⟩⟩ := consumerStep_returned hstep
    · have hframe := h.frame ⟨rest', todo', kept', hmemory⟩ hreturned fun hne => absurd hw (hne loop)
      split at hs
      · exact absurd ‹_› hpc
      · cases hs
        rw [← hw]
        exact hframe
    · rw [hpc] at hs
      dsimp only at hs
      rw [hreturned, List.getLast?_concat] at hs
      cases hs
      -- no sink has been given the line yet
      refine ⟨⟨rest', todo', kept', hmemory⟩, fun _ => hpc, fun loop' entry k hw' => ?_, fun k sink₀ hk => ?_,
        fun hlast => h.stopped (by rw [hw]; exact hlast)⟩
      · cases hw'
        exact ⟨_, hreturned⟩
      · obtain ⟨sink, hsink, hkind, htext, -⟩ := h.sinks k sink₀ hk
        refine ⟨sink, hsink, hkind, ?_, nofun⟩
        rw [htext]
        unfold given
        rw [hw]
        dsimp only
        rw [if_neg (Nat.not_lt_zero k), hreturned, List.dropLast_concat]

/-- **A step of `dispatch`.** -/
theorem dispatchStep_kept {loop : WriterLoop} {entry : LogEntry} {k : ℕ} (h : s.Kept start)
    (hw : s.writer = .dispatch loop entry k) : (s.dispatchStep loop entry k).Kept start := by
  have hidle := h.idle (by rw [hw]; nofun)
  obtain ⟨front, hfront⟩ := h.entry loop entry k hw
  have hstopped : loop.isLast → s.stop = true := fun hlast => h.stopped (by rw [hw]; exact hlast)
  unfold dispatchStep
  cases hk : s.sinks[k]? with
  | some sink =>
      refine ⟨h.queue, fun _ => hidle, fun loop' entry' k' hw' => ?_, fun j sink₀ hj => ?_, hstopped⟩
      · cases hw'
        exact ⟨front, hfront⟩
      · obtain ⟨sinkⱼ, hsinkⱼ, hkind, htext, -⟩ := h.sinks j sink₀ hj
        unfold given at htext
        rw [hw] at htext
        by_cases hjk : j = k
        · -- this is the sink that is written to
          subst hjk
          rw [hk] at hsinkⱼ
          cases hsinkⱼ
          refine ⟨sink.write entry, by simp [(List.getElem?_eq_some_iff.mp hk).1], hkind, ?_, nofun⟩
          show sink.kind.append sink.text entry = _
          rw [htext, hkind]
          unfold given
          dsimp only
          rw [if_neg (Nat.lt_irrefl j), if_pos (Nat.lt_succ_self j), hfront, List.dropLast_concat, List.foldl_concat]
        · have hiff : j < k + 1 ↔ j < k := by omega
          refine ⟨sinkⱼ, ?_, hkind, ?_, nofun⟩
          · rw [List.getElem?_set_ne (Ne.symm hjk)]
            exact hsinkⱼ
          · rw [htext]
            unfold given
            simp only [hiff]
  | none =>
      refine h.goes hidle nofun (fun j hj => ?_) (fun _ _ => nofun) fun hlast => hstopped ?_
      · -- every sink has been given the line
        obtain ⟨sink₀, hsink₀⟩ := Option.isSome_iff_exists.mp hj
        obtain ⟨sink, hsink, -⟩ := h.sinks j sink₀ hsink₀
        have hlt := (List.getElem?_eq_some_iff.mp hsink).1
        have hle := List.getElem?_eq_none_iff.mp hk
        unfold given
        rw [hw]
        exact if_pos (by omega)
      · rw [← isLast_wrote]
        exact hlast

/-- **A step of a flush.** -/
theorem flushStep_kept {loop : WriterLoop} {k : ℕ} (h : s.Kept start) (hw : s.writer = .flush loop k) :
    (s.flushStep loop k).Kept start := by
  have hidle := h.idle (by rw [hw]; nofun)
  have hstopped : loop.isLast → s.stop = true := fun hlast => h.stopped (by rw [hw]; exact hlast)
  unfold flushStep
  cases hk : s.sinks[k]? with
  | some sink =>
      refine ⟨h.queue, fun _ => hidle, nofun, fun j sink₀ hj => ?_, hstopped⟩
      obtain ⟨sinkⱼ, hsinkⱼ, hkind, htext, hflushed⟩ := h.sinks j sink₀ hj
      unfold given at htext
      rw [hw] at htext
      by_cases hjk : j = k
      · subst hjk
        rw [hk] at hsinkⱼ
        cases hsinkⱼ
        exact ⟨sink.flush, by simp [(List.getElem?_eq_some_iff.mp hk).1], hkind, htext, fun _ => rfl⟩
      · refine ⟨sinkⱼ, ?_, hkind, htext, fun hf => hflushed ?_⟩
        · rw [List.getElem?_set_ne (Ne.symm hjk)]
          exact hsinkⱼ
        · have hlt : j < k + 1 := hf.2
          rw [hw]
          exact ⟨hf.1, by omega⟩
  | none =>
      by_cases hlast : loop.isLast
      · dsimp only
        rw [if_pos hlast]
        refine h.goes hidle nofun (fun j _ => by unfold given; rw [hw]) (fun j hj _ => ?_) fun _ => hstopped hlast
        -- there is no sink left, so each has been flushed
        obtain ⟨sink₀, hsink₀⟩ := Option.isSome_iff_exists.mp hj
        obtain ⟨sink, hsink, -⟩ := h.sinks j sink₀ hsink₀
        have hlt := (List.getElem?_eq_some_iff.mp hsink).1
        have hle := List.getElem?_eq_none_iff.mp hk
        rw [hw]
        exact ⟨hlast, by omega⟩
      · dsimp only
        rw [if_neg hlast]
        exact h.goes hidle nofun (fun j _ => by unfold given; rw [hw]) (fun _ _ => nofun) nofun

theorem writerStep_kept (h : s.Kept start) (hs : s.writerStep = some s') : s'.Kept start := by
  unfold writerStep at hs
  cases hw : s.writer with
  | check =>
      rw [hw] at hs
      cases hs
      refine h.goes (h.idle (by rw [hw]; nofun)) nofun (fun k _ => by unfold given; rw [hw]) (fun _ _ => nofun)
        fun hlast => ?_
      cases hstop : s.stop
      · rw [hstop] at hlast
        cases hlast
      · rfl
  | dequeue loop =>
      rw [hw] at hs
      exact dequeueStep_kept h hw hs
  | dispatch loop entry k =>
      rw [hw] at hs
      cases hs
      exact dispatchStep_kept h hw
  | flush loop k =>
      rw [hw] at hs
      cases hs
      exact flushStep_kept h hw
  | sleep =>
      rw [hw] at hs
      cases hs
      exact h.goes (h.idle (by rw [hw]; nofun)) nofun (fun k _ => by unfold given; rw [hw]) (fun _ _ => nofun) nofun
  | ended =>
      rw [hw] at hs
      cases hs

/-- **One step** of any thread keeps the invariant. -/
theorem step_kept {e : Event} (h : s.Kept start) (hs : s.step e = some s') : s'.Kept start := by
  obtain ⟨rest, todo, kept, hq⟩ := h.queue
  cases e with
  | log p level time message address =>
      change s.log p level time message address = some s' at hs
      unfold log at hs
      split_ifs at hs
      · cases hs
        exact h
      · obtain ⟨q, hcall, hs⟩ := Option.bind_eq_some_iff.mp hs
        cases hs
        obtain ⟨-, -, hreturned, hconsumer⟩ := callEnqueue_frame hcall
        exact h.frame ⟨rest, todo, kept, MPSCQueue.enqueue_memory hq hcall⟩ hreturned
          fun hne => hconsumer.trans (h.idle hne)
  | producer p =>
      obtain ⟨q, hstep, hs⟩ := Option.bind_eq_some_iff.mp hs
      cases hs
      obtain ⟨-, -, hreturned, hconsumer⟩ := producerStep_frame hstep
      obtain ⟨rest', hmemory⟩ := MPSCQueue.producer_memory hq hstep
      exact h.frame ⟨rest', todo, kept, hmemory⟩ hreturned fun hne => hconsumer.trans (h.idle hne)
  | requestStop =>
      change s.requestStop = some s' at hs
      unfold requestStop at hs
      split_ifs at hs
      cases hs
      exact ⟨h.queue, h.idle, h.entry, h.sinks, fun _ => rfl⟩
  | writer => exact writerStep_kept h hs

theorem new_kept (minLevel : LogLevel) (sentinel : ℕ) : (new start minLevel sentinel).Kept start where
  queue := ⟨[], [], [], MPSCQueue.new_memory (by decide) sentinel⟩
  idle _ := rfl
  entry := nofun
  sinks _ sink₀ hk := ⟨sink₀, hk, rfl, rfl, nofun⟩
  stopped := nofun

theorem run_kept {minLevel : LogLevel} {sentinel : ℕ} {es : List Event}
    (hr : Machine.run step (new start minLevel sentinel) es = some s) : s.Kept start :=
  Machine.run_preserves (fun _ _ _ h hs => step_kept h hs) (new_kept minLevel sentinel) hr

/-! ## Lines -/

theorem lines_cons (minLevel : LogLevel) (p : ℕ) (e : Event) (es : List Event) :
    lines minLevel p (e :: es) = lines minLevel p [e] ++ lines minLevel p es := by
  unfold lines
  rw [← List.filterMap_append]
  rfl

/-- The writer puts nothing into the queue. -/
theorem writerStep_frame (hs : s.writerStep = some s') :
    s'.queue.linked = s.queue.linked ∧ s'.queue.enqueued = s.queue.enqueued ∧ s'.minLevel = s.minLevel ∧
      s'.stop = s.stop := by
  unfold writerStep at hs
  split at hs
  · cases hs
    exact ⟨rfl, rfl, rfl, rfl⟩
  · unfold dequeueStep at hs
    split at hs
    · obtain ⟨q, hcall, hs⟩ := Option.bind_eq_some_iff.mp hs
      obtain ⟨hlinked, henqueued, -⟩ := callTryDequeue_frame hcall
      split at hs <;> (cases hs; exact ⟨hlinked, henqueued, rfl, rfl⟩)
    · obtain ⟨q, hstep, hs⟩ := Option.bind_eq_some_iff.mp hs
      obtain ⟨hlinked, henqueued, -⟩ := consumerStep_returned hstep
      split at hs
      · obtain ⟨entry, -, hs⟩ := Option.bind_eq_some_iff.mp hs
        cases hs
        exact ⟨hlinked, henqueued, rfl, rfl⟩
      · cases hs
        exact ⟨hlinked, henqueued, rfl, rfl⟩
  · cases hs
    unfold dispatchStep
    split <;> exact ⟨rfl, rfl, rfl, rfl⟩
  · cases hs
    unfold flushStep
    split <;> exact ⟨rfl, rfl, rfl, rfl⟩
  · cases hs
    exact ⟨rfl, rfl, rfl, rfl⟩
  · cases hs

/-- **What a thread has enqueued** is what it has logged. -/
theorem step_enqueued {e : Event} (hs : s.step e = some s') :
    s'.minLevel = s.minLevel ∧ s.queue.linked <+: s'.queue.linked ∧
      ∀ p, s'.queue.enqueued p = s.queue.enqueued p ++ lines s.minLevel p [e] := by
  cases e with
  | log p level time message address =>
      change s.log p level time message address = some s' at hs
      unfold log at hs
      split_ifs at hs with hlevel
      · cases hs
        refine ⟨rfl, List.prefix_refl _, fun r => ?_⟩
        simp [lines, hlevel]
      · obtain ⟨q, hcall, hs⟩ := Option.bind_eq_some_iff.mp hs
        cases hs
        obtain ⟨hlinked, henqueued, -, -⟩ := callEnqueue_frame hcall
        refine ⟨rfl, hlinked ▸ List.prefix_refl _, fun r => ?_⟩
        show q.enqueued r = _
        rw [henqueued]
        by_cases hr : r = p
        · subst hr
          rw [Function.update_self]
          simp [lines, Nat.not_lt.mp hlevel]
        · rw [Function.update_of_ne hr]
          simp [lines, Ne.symm hr]
  | producer p =>
      obtain ⟨q, hstep, hs⟩ := Option.bind_eq_some_iff.mp hs
      cases hs
      obtain ⟨hlinked, henqueued, -, -⟩ := producerStep_frame hstep
      refine ⟨rfl, hlinked, fun r => ?_⟩
      show q.enqueued r = _
      rw [henqueued]
      simp [lines]
  | requestStop =>
      change s.requestStop = some s' at hs
      unfold requestStop at hs
      split_ifs at hs
      cases hs
      exact ⟨rfl, List.prefix_refl _, fun r => by simp [lines]⟩
  | writer =>
      obtain ⟨hlinked, henqueued, hlevel, -⟩ := writerStep_frame hs
      refine ⟨hlevel, hlinked ▸ List.prefix_refl _, fun r => ?_⟩
      rw [henqueued]
      simp [lines]

theorem run_enqueued {es : List Event} (hr : Machine.run step s es = some s') :
    s'.minLevel = s.minLevel ∧ ∀ p, s'.queue.enqueued p = s.queue.enqueued p ++ lines s.minLevel p es := by
  induction es generalizing s with
  | nil =>
      cases hr
      exact ⟨rfl, fun p => by simp [lines]⟩
  | cons e es ih =>
      obtain ⟨t, ht, hr'⟩ := Machine.run_cons.mp hr
      obtain ⟨hlevel, -, henqueued⟩ := step_enqueued ht
      obtain ⟨hlevel', henqueued'⟩ := ih hr'
      refine ⟨hlevel'.trans hlevel, fun p => ?_⟩
      rw [henqueued', henqueued, hlevel, lines_cons s.minLevel p e es, List.append_assoc]

/-- When a call of `try_dequeue` has returned nothing, everything that was linked has been returned. -/
theorem linked_returned {rest todo kept : List ℕ} {q : MPSCQueue LogEntry}
    (h : q.Memory maxProducers rest todo kept) (hrest : rest = []) (hidle : q.consumer = .idle) :
    q.linked.length = q.returned.length := by
  obtain ⟨vals, hdata, hall⟩ := h.inv.values
  have hvals : vals = [] := by
    rw [hrest] at hdata
    exact List.map_eq_nil_iff.mp hdata.symm
  have hlen := congrArg List.length hall
  rw [hvals, hidle] at hlen
  simpa [ConsumerPc.inHand] using hlen

/-- **Nothing is left behind** that was in the queue. -/
theorem step_drained {linked : List (ℕ × LogEntry)} {e : Event} (h : s.Kept start) (hd : s.Drained linked)
    (hs : s.step e = some s') : s'.Drained linked := by
  obtain ⟨-, hextends, -⟩ := step_enqueued hs
  refine ⟨hd.1.trans hextends, fun hemptied => ?_⟩
  cases e with
  | log p level time message address =>
      change s.log p level time message address = some s' at hs
      unfold log at hs
      split_ifs at hs
      · cases hs
        exact hd.2 hemptied
      · obtain ⟨q, hcall, hs⟩ := Option.bind_eq_some_iff.mp hs
        cases hs
        obtain ⟨-, -, hreturned, -⟩ := callEnqueue_frame hcall
        rw [hreturned]
        exact hd.2 hemptied
  | producer p =>
      obtain ⟨q, hstep, hs⟩ := Option.bind_eq_some_iff.mp hs
      cases hs
      obtain ⟨-, -, hreturned, -⟩ := producerStep_frame hstep
      rw [hreturned]
      exact hd.2 hemptied
  | requestStop =>
      change s.requestStop = some s' at hs
      unfold requestStop at hs
      split_ifs at hs
      cases hs
      exact hd.2 hemptied
  | writer =>
      obtain ⟨rest, todo, kept, hq⟩ := h.queue
      change s.writerStep = some s' at hs
      unfold writerStep at hs
      cases hw : s.writer with
      | check | sleep =>
          rw [hw] at hs
          cases hs
          cases hemptied
      | dequeue loop =>
          rw [hw] at hs
          change s.dequeueStep loop = some s' at hs
          unfold dequeueStep at hs
          split at hs
          · obtain ⟨q, hcall, hs⟩ := Option.bind_eq_some_iff.mp hs
            obtain ⟨hmemory, -, ⟨rfl, hrest⟩ | ⟨⟨next, hnext⟩, -⟩⟩ := MPSCQueue.tryDequeue_memory hq hcall
            · -- the last look at the queue: what was linked before is linked now, and all of it is returned
              split at hs
              · cases hs
                have hlen := linked_returned hmemory hrest ‹_›
                have hle := hd.1.length_le
                show linked.length ≤ s.queue.returned.length
                omega
              · cases hs
                cases hemptied
            · rw [hnext] at hs
              cases hs
              cases hemptied
          · obtain ⟨q, -, hs⟩ := Option.bind_eq_some_iff.mp hs
            split at hs
            · obtain ⟨entry, -, hs⟩ := Option.bind_eq_some_iff.mp hs
              cases hs
              cases hemptied
            · cases hs
              cases hemptied
      | dispatch loop entry k =>
          rw [hw] at hs
          cases hs
          unfold dispatchStep at hemptied
          split at hemptied <;> cases hemptied
      | flush loop k =>
          rw [hw] at hs
          cases hs
          have hold : loop.isLast → linked.length ≤ s.queue.returned.length := by
            intro hlast
            exact hd.2 (by rw [hw]; exact hlast)
          unfold flushStep at hemptied ⊢
          split at hemptied
          · exact hold hemptied
          · refine hold ?_
            by_contra hlast
            rw [if_neg hlast] at hemptied
            cases hemptied
      | ended =>
          rw [hw] at hs
          cases hs

/-! ## Runs -/

theorem prefix_filter_map {l l' : List (ℕ × LogEntry)} (p : ℕ) (h : l <+: l') :
    (l.filter (·.1 = p)).map Prod.snd <+: (l'.filter (·.1 = p)).map Prod.snd := (h.filter _).map _

/-- **Every line is written once.** When `shutdown` has returned, some of the lines have been written, to all
    sinks the same ones in the same order, and flushed. Of each thread these are the first ones it has logged, in
    its order; and if it was in no call when `shutdown` was called, they are all it had logged by then. -/
theorem lines_written {sinks : List LogSink} {minLevel : LogLevel} {sentinel : ℕ} {es₁ es₂ : List Event}
    {s₁ : AsyncLogger} (h₁ : Machine.run step (new sinks minLevel sentinel) es₁ = some s₁)
    (h₂ : Machine.run step s₁ (.requestStop :: es₂) = some s) (hended : s.writer = .ended) :
    ∃ written : List (ℕ × LogEntry),
      (∀ (k : ℕ) (sink₀ : LogSink), sinks[k]? = some sink₀ → ∃ sink : LogSink, s.sinks[k]? = some sink ∧
        sink.text = (written.map Prod.snd).foldl sink₀.kind.append sink₀.text ∧ sink.flushed = sink.text) ∧
      ∀ p, (written.filter (·.1 = p)).map Prod.snd <+: lines minLevel p (es₁ ++ .requestStop :: es₂) ∧
        (s₁.queue.producers p = .idle → lines minLevel p es₁ <+: (written.filter (·.1 = p)).map Prod.snd) := by
  have hkept₁ := run_kept h₁
  have hr := Machine.run_append.mpr ⟨s₁, h₁, h₂⟩
  have hkept := run_kept hr
  obtain ⟨hlevel₁, henqueued₁⟩ := run_enqueued h₁
  obtain ⟨-, henqueued⟩ := run_enqueued hr
  obtain ⟨rest, todo, kept, hq⟩ := hkept.queue
  obtain ⟨rest₁, todo₁, kept₁, hq₁⟩ := hkept₁.queue
  -- from the stop on, what was linked then is not left behind
  have hdrained : s.Kept sinks ∧ s.Drained s₁.queue.linked := by
    refine Machine.run_preserves (I := fun s => s.Kept sinks ∧ s.Drained s₁.queue.linked)
      (fun _ _ _ h hs => ⟨step_kept h.1 hs, step_drained h.1 h.2 hs⟩) ⟨hkept₁, List.prefix_refl _, fun hemptied => ?_⟩ h₂
    obtain ⟨t, ht, -⟩ := Machine.run_cons.mp h₂
    have hrunning : s₁.stop = false := by
      by_contra hstop
      change s₁.requestStop = some t at ht
      unfold requestStop at ht
      rw [if_pos (by simpa using hstop)] at ht
      cases ht
    have hlast : InLast s₁.writer := by
      cases hw : s₁.writer <;> rw [hw] at hemptied <;> first | exact hemptied | cases hemptied
    rw [hkept₁.stopped hlast] at hrunning
    cases hrunning
  obtain ⟨-, hextends, hlen⟩ := hdrained
  have hle := hlen (by rw [hended]; trivial)
  have hreturned : s.queue.returned = (s.queue.linked.take s.queue.returned.length).map Prod.snd := by
    obtain ⟨vals, -, hall⟩ := hq.inv.values
    rw [List.map_take, hall, List.append_assoc, List.take_left]
  refine ⟨s.queue.linked.take s.queue.returned.length, fun k sink₀ hk => ?_, fun p => ⟨?_, fun hidle => ?_⟩⟩
  · obtain ⟨sink, hsink, -, htext, hflushed⟩ := hkept.sinks k sink₀ hk
    rw [hended] at hflushed
    unfold given at htext
    rw [hended] at htext
    refine ⟨sink, hsink, ?_, hflushed trivial⟩
    rw [← hreturned]
    exact htext
  · have hby : s.queue.linkedBy p <+: s.queue.enqueued p := by
      cases hnode : (s.queue.producers p).node? with
      | none => exact (hq.inv.calls p).linked hnode ▸ List.prefix_refl _
      | some node =>
          obtain ⟨-, v, -, hvalues⟩ := (hq.inv.calls p).own node hnode
          rw [hvalues]
          exact List.prefix_append _ _
    rw [henqueued p] at hby
    exact (prefix_filter_map p (List.take_prefix _ _)).trans hby
  · have hall : s₁.queue.enqueued p = s₁.queue.linkedBy p := (hq₁.inv.calls p).linked (by rw [hidle]; rfl)
    rw [henqueued₁ p] at hall
    change lines minLevel p es₁ = _ at hall
    rw [hall]
    refine prefix_filter_map p (List.prefix_take_iff.mpr ⟨hextends, hle⟩)

/-- Two threads log into a file and the console. The first has its line in the queue when the logger is asked to
    stop; the other one logs a message that is below the level, and a line while the writer is in its last loop. -/
theorem lines_written_two :
    let es₁ : List Event := List.flatten
      [[.log 0 .warn "t" "a" 1], List.replicate 8 (.producer 0), [.log 1 .debug "t" "b" 2]]
    let es₂ : List Event := List.flatten
      [List.replicate 4 .writer, [.log 1 .info "t" "c" 2], List.replicate 8 (.producer 1), List.replicate 13 .writer]
    let sinks : List LogSink := [{ kind := .file true }, { kind := .console }]
    ∃ s₁ s, Machine.run step (new sinks .info 0) es₁ = some s₁ ∧
      Machine.run step s₁ (.requestStop :: es₂) = some s ∧ s.writer = .ended ∧
      s.sinks.map LogSink.flushed = [("[t] [WARN] a\n[t] [INFO] c\n", ""), ("[t] [INFO] c\n", "[t] [WARN] a\n")] ∧
      ∃ written : List (ℕ × LogEntry),
        (∀ (k : ℕ) (sink₀ : LogSink), sinks[k]? = some sink₀ → ∃ sink : LogSink, s.sinks[k]? = some sink ∧
          sink.text = (written.map Prod.snd).foldl sink₀.kind.append sink₀.text ∧ sink.flushed = sink.text) ∧
        ∀ p, (written.filter (·.1 = p)).map Prod.snd <+: lines .info p (es₁ ++ .requestStop :: es₂) ∧
          (s₁.queue.producers p = .idle → lines .info p es₁ <+: (written.filter (·.1 = p)).map Prod.snd) := by
  intro es₁ es₂ sinks
  have hrun : (Machine.run step (new sinks .info 0) es₁).isSome := by decide
  have hrun' : (Machine.run step ((Machine.run step (new sinks .info 0) es₁).get hrun) (.requestStop :: es₂)).isSome := by
    decide +revert
  have hended : ((Machine.run step ((Machine.run step (new sinks .info 0) es₁).get hrun)
      (.requestStop :: es₂)).get hrun').writer = .ended := by
    decide +revert
  refine ⟨_, _, (Option.some_get hrun).symm, (Option.some_get hrun').symm, hended, ?_,
    lines_written (Option.some_get hrun).symm (Option.some_get hrun').symm hended⟩
  decide +revert

/-! ## The end -/

/-- How far the writer is from its end, where there are `n` sinks and nothing is in the queue. -/
def writerRank (n : ℕ) : WriterPc → ℕ
  | .ended => 0
  | .flush loop k => (n - k) + 1 + if loop.isLast then 0 else n + 4
  | .dequeue loop => if loop.isLast then n + 2 else 2 * n + 6
  | .dispatch loop _ k => (n - k) + 1 + if loop.isLast then n + 2 else 2 * n + 6
  | .check => n + 3
  | .sleep => n + 4

/-- Each step of a call of `try_dequeue` stands for a line that is dispatched. -/
def weight (s : AsyncLogger) (rest todo : List ℕ) : ℕ :=
  s.queue.weight maxProducers rest todo * (s.sinks.length + 2) + writerRank s.sinks.length s.writer

theorem rank_emptied (n : ℕ) (loop : WriterLoop) : writerRank n loop.emptied < writerRank n (.dequeue loop) := by
  cases loop with
  | running wrote =>
      cases wrote
      · show n + 4 < 2 * n + 6
        omega
      · show (n - 0) + 1 + (n + 4) < 2 * n + 6
        omega
  | last =>
      show (n - 0) + 1 + 0 < n + 2
      omega

/-- **The writer goes on** to its end, once it has been asked to stop. -/
theorem writer_goes_on {rest todo kept : List ℕ} (hq : s.queue.Memory maxProducers rest todo kept)
    (hstop : s.stop = true) (hw : s.writer ≠ .ended) :
    ∃ s' rest' todo' kept', s.writerStep = some s' ∧ s'.queue.Memory maxProducers rest' todo' kept' ∧
      s'.weight rest' todo' < s.weight rest todo := by
  unfold writerStep
  cases hpc : s.writer with
  | ended => exact absurd hpc hw
  | check =>
      refine ⟨_, rest, todo, kept, rfl, hq, ?_⟩
      unfold weight
      dsimp only
      rw [hpc, hstop]
      exact Nat.add_lt_add_left (Nat.lt_succ_self _) _
  | sleep =>
      refine ⟨_, rest, todo, kept, rfl, hq, ?_⟩
      unfold weight
      dsimp only
      rw [hpc]
      exact Nat.add_lt_add_left (Nat.lt_succ_self _) _
  | dispatch loop entry k =>
      refine ⟨_, rest, todo, kept, rfl, ?_, ?_⟩
      · unfold dispatchStep
        split <;> exact hq
      · unfold dispatchStep weight
        rw [hpc]
        cases hk : s.sinks[k]? with
        | some sink =>
            have hlt := (List.getElem?_eq_some_iff.mp hk).1
            simp only [List.length_set, writerRank]
            omega
        | none =>
            simp only [writerRank, isLast_wrote]
            omega
  | flush loop k =>
      refine ⟨_, rest, todo, kept, rfl, ?_, ?_⟩
      · unfold flushStep
        split <;> exact hq
      · unfold flushStep weight
        rw [hpc]
        cases hk : s.sinks[k]? with
        | some sink =>
            have hlt := (List.getElem?_eq_some_iff.mp hk).1
            simp only [List.length_set, writerRank]
            omega
        | none =>
            by_cases hlast : loop.isLast
            · simp only [if_pos hlast, writerRank]
              omega
            · simp only [if_neg hlast, writerRank]
              omega
  | dequeue loop =>
      dsimp only
      unfold dequeueStep
      by_cases hidle : s.queue.consumer = .idle
      · obtain ⟨q, hq'⟩ := MPSCQueue.tryDequeue_goes_on hq.inv hidle
        obtain ⟨hmemory, -, ⟨rfl, -⟩ | ⟨⟨next, hnext⟩, hlt⟩⟩ := MPSCQueue.tryDequeue_memory hq hq'
        · -- the queue is empty, so this loop is at its end
          rw [hidle]
          dsimp only
          rw [hq']
          simp only [Option.bind_eq_bind, Option.bind_some, hidle]
          refine ⟨_, rest, todo, kept, rfl, hmemory, ?_⟩
          unfold weight
          rw [hpc]
          exact Nat.add_lt_add_left (rank_emptied _ loop) _
        · rw [hidle]
          dsimp only
          rw [hq']
          simp only [Option.bind_eq_bind, Option.bind_some, hnext]
          refine ⟨_, rest, todo, kept, rfl, hmemory, ?_⟩
          unfold weight
          rw [hpc]
          have hmul := Nat.mul_le_mul_right (s.sinks.length + 2) (Nat.succ_le_of_lt hlt)
          rw [Nat.succ_mul] at hmul
          dsimp only
          omega
      · obtain ⟨q, hq'⟩ := MPSCQueue.consumer_goes_on hq.inv hidle
        obtain ⟨rest', todo', kept', hmemory, -, hlt⟩ := MPSCQueue.consumer_memory hq (by decide) hq'
        have hmul := Nat.mul_le_mul_right (s.sinks.length + 2) (Nat.succ_le_of_lt hlt)
        rw [Nat.succ_mul] at hmul
        split
        · exact absurd ‹_› hidle
        · rw [hq']
          simp only [Option.bind_eq_bind, Option.bind_some]
          obtain ⟨-, -, ⟨-, hbusy⟩ | ⟨v, hreturned, hdone⟩⟩ := consumerStep_returned hq'
          · split
            · exact absurd ‹_› hbusy
            · refine ⟨_, rest', todo', kept', rfl, hmemory, ?_⟩
              unfold weight
              rw [hpc]
              dsimp only
              omega
          · rw [hdone, hreturned, List.getLast?_concat]
            refine ⟨_, rest', todo', kept', rfl, hmemory, ?_⟩
            unfold weight
            rw [hpc]
            simp only [writerRank]
            omega

/-- **`shutdown` returns.** Whatever is in the queue, and wherever the writer is when it is asked to stop, its own
    steps bring it to its end. -/
theorem shutdown_returns {sinks : List LogSink} {minLevel : LogLevel} {sentinel : ℕ} {es : List Event}
    (hr : Machine.run step (new sinks minLevel sentinel) es = some s) (hstop : s.stop = true) :
    ∃ n s', Machine.run step s (List.replicate n .writer) = some s' ∧ s'.writer = .ended := by
  have hkept := run_kept hr
  clear hr
  obtain ⟨rest, todo, kept, hq⟩ := hkept.queue
  induction hweight : s.weight rest todo using Nat.strongRecOn generalizing s rest todo kept with
  | _ w ih =>
      by_cases hended : s.writer = .ended
      · exact ⟨0, s, rfl, hended⟩
      · obtain ⟨t, rest', todo', kept', ht, hq', hlt⟩ := writer_goes_on hq hstop hended
        obtain ⟨-, -, -, hstop'⟩ := writerStep_frame ht
        obtain ⟨n, s', hr, hended'⟩ := ih _ (hweight ▸ hlt) (hstop'.trans hstop) (writerStep_kept hkept ht) rest' todo'
          kept' hq' rfl
        exact ⟨n + 1, s', Machine.run_cons.mpr ⟨t, ht, hr⟩, hended'⟩

/-- The writer is about to sleep, and a line is linked, when the logger is asked to stop. -/
theorem shutdown_returns_asleep :
    let es : List Event := List.flatten
      [[.writer, .writer], [.log 0 .info "t" "a" 1], List.replicate 8 (.producer 0), [.requestStop]]
    ∃ s, Machine.run step (new [{ kind := .console }] .info 0) es = some s ∧ s.writer = .sleep ∧
      ∃ n s', Machine.run step s (List.replicate n .writer) = some s' ∧ s'.writer = .ended := by
  intro es
  have hrun : (Machine.run step (new [{ kind := .console }] .info 0) es).isSome := by decide
  have hstop : ((Machine.run step (new [{ kind := .console }] .info 0) es).get hrun).stop = true := by
    decide +revert
  refine ⟨_, (Option.some_get hrun).symm, ?_, shutdown_returns (Option.some_get hrun).symm hstop⟩
  decide +revert

end

end AsyncLogger

end CollabEditor
