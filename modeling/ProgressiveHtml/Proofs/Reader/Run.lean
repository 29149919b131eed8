import ProgressiveHtml.Proofs.EventLoop.Background
import ProgressiveHtml.Reader

namespace ProgressiveHtml

/-!
# Readers — runs of a stream

A reader asks a stream for chunks when it likes; in between, time passes and late fragments go on.
A `ChunkStream.Run` is any such course of events, whatever the pace of the reader.

* `Polled.next?`, `Polled.items` — what an answer leaves and what it brings;
* `ChunkStream.Run` — the states that reading a stream leads to, with all that has happened;
* `ChunkStream.ReadOut` — the histories of runs to the end of the stream;
* `ChunkStream.readOut_of_readChunks?` — what is read chunk by chunk to the end is such a run.
-/

namespace Polled

variable {σ : Type}

/-- What the main task goes on with, unless it panicked. -/
def next? {α : Type} : Polled σ α → Option σ
  | ready _ next => some next
  | pending next => some next
  | panicked _ => none

/-- The item that an answer brings, if it brings one. -/
def items : Polled σ (Option Item) → List Item
  | ready (some item) _ => [item]
  | _ => []

end Polled

/-- The slots given out from one state to a later one, all by the main task. -/
def EventLoop.handedInSince (before after : EventLoop) : List Happening :=
  History.handIns none (!before.registry.closed)
    (List.range' before.registry.next (after.registry.next - before.registry.next))

/-- The chunks that the reader got, in order. -/
def History.chunks (h : List Happening) : List Chunk := (History.yields h).filterMap Except.toOption

@[simp] theorem History.chunks_append (h new : List Happening) :
    chunks (h ++ new) = chunks h ++ chunks new := by
  simp [chunks]

namespace ChunkStream

variable {σ : Type} (s : ChunkStream σ) (first : σ) (w₀ : EventLoop)

/-- The states that reading a stream leads to, with all that has happened since the start. -/
inductive Run : List Happening → σ → EventLoop → Prop
  | start : Run [] first w₀
  /-- The reader does nothing: time passes, or a late fragment goes on. -/
  | background {h new : List Happening} {state : σ} {w w' : EventLoop} (run : Run h state w)
      (move : w.Background new w') : Run (h ++ new) state w'
  /-- The reader asks for the next chunk. -/
  | poll {h : List Happening} {state next : σ} {w w' : EventLoop} {answer : StreamPoll σ}
      (run : Run h state w) (asked : s.poll state w = (answer, w'))
      (onward : answer.next? = some next) :
      Run (h ++ (w.handedInSince w' ++ History.reads answer.items)) next w'

/-- Reading the stream to its end, with all that has happened: the last answer reports the end. -/
inductive ReadOut : List Happening → Prop
  | ended {h : List Happening} {state last : σ} {w w' : EventLoop} (run : s.Run first w₀ h state w)
      (asked : s.poll state w = (.ready none last, w')) : ReadOut (h ++ w.handedInSince w')

variable {s first w₀}

/-- While the reader sleeps. -/
theorem Run.sleep {h : List Happening} {state : σ} {w : EventLoop} (run : s.Run first w₀ h state w)
    (turns length : Nat) :
    ∃ new, s.Run first w₀ (h ++ new) state (w.sleep turns length) ∧ History.yields new = [] := by
  refine EventLoop.sleep_keeps
    (P := fun w => ∃ new, s.Run first w₀ (h ++ new) state w ∧ History.yields new = [])
    turns length ⟨[], by simpa using run, rfl⟩ ?_
  rintro w more w' ⟨new, run, none⟩ move
  refine ⟨new ++ more, ?_, by simp [none, move.yields]⟩
  rw [← List.append_assoc]
  exact run.background move

/-- Waiting for the next item: nothing is read before the answer is there. -/
theorem Run.next {h : List Happening} {state : σ} {w : EventLoop} (run : s.Run first w₀ h state w)
    (turns limit : Nat) {answer : Option Item} {left : σ} {after : EventLoop}
    (got : s.next turns limit state w = (.ready answer left, after)) :
    ∃ new last before, s.Run first w₀ (h ++ new) last before ∧ History.yields new = [] ∧
      s.poll last before = (.ready answer left, after) := by
  have leaves : EventLoop.LeavesOff s.toAwaitable
      (fun state w => ∃ new, s.Run first w₀ (h ++ new) state w ∧ History.yields new = [])
      (s.next turns limit state w) := by
    apply EventLoop.waitRounds_induct turns limit
    · exact ⟨[], by simpa using run, rfl⟩
    · rintro state w next w' ⟨new, run, none⟩ asked
      refine ⟨_, (List.append_assoc ..) ▸ run.poll asked rfl, ?_⟩
      simp [none, EventLoop.handedInSince, Polled.items]
    · rintro state w more w' ⟨new, run, none⟩ move
      exact ⟨_, (List.append_assoc ..) ▸ run.background move, by simp [none, move.yields]⟩
  rw [got] at leaves
  obtain ⟨last, before, ⟨new, run, none⟩, asked⟩ := leaves
  exact ⟨new, last, before, run, none, asked⟩

/-- Reading a stream chunk by chunk to its end is a run of it, which brings the chunks read. -/
theorem readWithin_run (turns patience most : Nat) (pacing : Pacing) {h : List Happening} {state : σ}
    {w after : EventLoop} {arrivals : List Arrival} (run : s.Run first w₀ h state w)
    (read : s.readWithin turns patience most pacing state w =
      (.ok (arrivals, .done), after)) :
    ∃ new, s.ReadOut first w₀ (h ++ new) ∧
      History.yields new = arrivals.map fun arrival => .ok arrival.chunk := by
  induction most generalizing pacing h state w arrivals with
  | zero => simp [readWithin] at read
  | succ most ih =>
    obtain ⟨slept, run, noneYet⟩ := run.sleep turns (pacing.pauses.headD 0)
    rw [readWithin] at read
    split at read
    · simp at read
    · dsimp only at read
      split at read <;> rename_i got
      · simp at read
      · simp at read
      · obtain ⟨new, last, before, run, none, asked⟩ := run.next _ _ got
        simp only [Prod.mk.injEq, Except.ok.injEq, and_true] at read
        have ended := ReadOut.ended run asked
        rw [List.append_assoc, List.append_assoc] at ended
        refine ⟨_, ended, ?_⟩
        simp [noneYet, none, ← read.1, EventLoop.handedInSince]
      · simp at read
      · rename_i chunk left w
        obtain ⟨waited, last, before, run, none, asked⟩ := run.next _ _ got
        -- The chunk is read, and what is left of the stream is read to its end.
        have run := run.poll asked rfl
        rcases others : s.readWithin turns patience most
          { pacing with take := pacing.take.map (· - 1), pauses := pacing.pauses.tail } left w with
          ⟨rest, w'⟩
        rw [others, prepend] at read
        match rest, read with
        | .ok (later, _), read =>
          simp only [Except.map, Prod.mk.injEq, Except.ok.injEq] at read
          obtain ⟨⟨rfl, rfl⟩, rfl⟩ := read
          obtain ⟨new, ended, brought⟩ := ih _ run others
          rw [List.append_assoc, List.append_assoc, List.append_assoc] at ended
          refine ⟨_, ended, ?_⟩
          simp [noneYet, none, brought, Polled.items, EventLoop.handedInSince]

/-- The chunks of a stream that is read to its end. -/
def readChunks? (s : ChunkStream σ) (turns most : Nat) (pacing : Pacing) (state : σ)
    (w : EventLoop) : Option (List Chunk) :=
  match (s.read turns most pacing state w).1 with
  | .ok (arrivals, .done) => some (arrivals.map (·.chunk))
  | _ => none

theorem readChunks?_eq_some {turns most : Nat} {pacing : Pacing} {state : σ} {w : EventLoop}
    {chunks : List Chunk} : s.readChunks? turns most pacing state w = some chunks ↔
      ∃ arrivals, (s.read turns most pacing state w).1 = .ok (arrivals, .done) ∧
        arrivals.map (·.chunk) = chunks := by
  unfold readChunks?
  constructor
  · intro read
    split at read
    · rename_i arrivals same
      exact ⟨arrivals, same, Option.some.inj read⟩
    · cases read
  · rintro ⟨arrivals, same, rfl⟩
    rw [same]

/-- A stream that is read to its end from the start is run to its end, without an error. -/
theorem readOut_of_readChunks? {turns most : Nat} {pacing : Pacing} {chunks : List Chunk}
    (read : s.readChunks? turns most pacing first w₀ = some chunks) :
    ∃ h, s.ReadOut first w₀ h ∧ History.chunks h = chunks ∧
      ∀ error, .error error ∉ History.yields h := by
  obtain ⟨arrivals, same, rfl⟩ := readChunks?_eq_some.1 read
  unfold ChunkStream.read at same
  rcases got : s.readWithin turns EventLoop.patience most pacing first w₀ with ⟨result, after⟩
  rw [got] at same
  dsimp only at same
  obtain ⟨h, readOut, brought⟩ := readWithin_run turns _ most pacing .start (same ▸ got)
  refine ⟨h, readOut, ?_, by simp [brought]⟩
  simp [History.chunks, brought, List.filterMap_map, Function.comp_def, Except.toOption]

end ChunkStream

end ProgressiveHtml
