import ProgressiveHtml.Proofs.Reader.Brings

namespace ProgressiveHtml

/-!
# Readers — reading as bytes

The stream of buffers brings a buffer or an error for each item of the stream itself, whenever this comes,
and it does so behind an error too.  Reading it is reading chunk by chunk.

* `ChunkStream.wait_bytes` — waiting for the next buffer is waiting for the next item;
* `ChunkStream.readBuffers_eq` — reading buffers is reading chunk by chunk;
* `ChunkStream.BringsBy.readBuffers`, `ChunkStream.brings_of_readBuffers` — what a patient reader of buffers
  gets, and what any reader got that came to an end.
-/

/-- What waiting comes to, with another answer. -/
def Waited.map {σ α β : Type} (f : α → β) : Waited σ α → Waited σ β
  | ready answer next => .ready (f answer) next
  | expired next => .expired next
  | panicked message => .panicked message

/-- A chunk that came, as a buffer. -/
def Arrival.buffer (arrival : Arrival) : Buffer := ⟨arrival.time, arrival.chunk.text.toUTF8⟩

/-- How the reading of buffers ends where that of chunks ends like this. -/
def Ending.delivery {σ : Type} : Ending σ → Delivery
  | .done => .finished (.ok ())
  | .failed _ error _ => .finished (.error (.render error))
  | .stalled | .dropped => .stalled

/-- Both end with the same result, if they come to an end. -/
theorem Ending.result?_eq_some_iff {σ : Type} {ending : Ending σ} {result : Except RenderError Unit} :
    ending.result? = some result ↔ ending.delivery = .finished (result.mapError .render) := by
  cases ending <;> cases result <;> simp [Ending.result?, Ending.delivery, Except.mapError]

namespace ChunkStream

variable {σ : Type} (s : ChunkStream σ) (turns : Nat)

theorem waitRounds_bytes (limit rounds : Nat) (state : σ) (w : EventLoop) :
    EventLoop.waitRounds s.bytes turns limit rounds state w =
      ((EventLoop.waitRounds s.toAwaitable turns limit rounds state w).1.map (·.map Item.buffer),
        (EventLoop.waitRounds s.toAwaitable turns limit rounds state w).2) := by
  induction rounds generalizing state w with
  | zero => rfl
  | succ rounds ih =>
    rw [EventLoop.waitRounds, EventLoop.waitRounds]
    rcases asked : s.poll state w with ⟨answer | left | message, w'⟩ <;>
      simp only [bytes, asked, Polled.map]
    · rfl
    · split
      · rfl
      · split <;> exact ih left _
    · rfl

/-- Waiting for the next buffer is waiting for the next item, at any place of the stream. -/
theorem wait_bytes (limit : Nat) (state : σ) (w : EventLoop) :
    w.wait s.bytes turns limit state =
      ((s.next turns limit state w).1.map (·.map Item.buffer), (s.next turns limit state w).2) :=
  s.waitRounds_bytes turns limit _ state w

/-- Reading buffers is reading chunk by chunk. -/
theorem readBuffers_eq (patience most : Nat) (state : σ) (w : EventLoop) :
    s.readBuffers turns patience most state w =
      ((s.readWithin turns patience most {} state w).1.map fun (arrivals, ending) =>
          (arrivals.map Arrival.buffer, ending.delivery),
        (s.readWithin turns patience most {} state w).2) := by
  induction most generalizing state w with
  | zero => rfl
  | succ most ih =>
    rw [readBuffers, wait_bytes, readWithin_succ]
    rcases s.next turns (w.now + patience) state w with ⟨(_ | error | chunk) | _ | message, w'⟩
    · rfl
    · rfl
    · rename_i next
      simp only [Waited.map, Option.map_some, Item.buffer]
      rw [ih]
      rcases s.readWithin turns patience most {} next w' with ⟨_ | _, _⟩ <;> rfl
    · rfl
    · rfl

variable {s turns} {state : σ} {w after : EventLoop} {chunks : List Chunk}
  {result : Except RenderError Unit}

/-- A patient reader gets a buffer for each chunk that the stream brings, and its error as that of a
    response. -/
theorem BringsBy.readBuffers {enough patience most : Nat}
    (brings : s.BringsBy turns enough state w chunks result after) (patient : enough ≤ patience)
    (more : chunks.length < most) : ∃ buffers : List Buffer,
      s.readBuffers turns patience most state w =
        (.ok (buffers, .finished (result.mapError .render)), after) ∧
      buffers.map (·.bytes) = chunks.map (·.text.toUTF8) := by
  obtain ⟨arrivals, ending, read, rfl, ends⟩ := brings.read patient more
  refine ⟨arrivals.map Arrival.buffer, ?_, ?_⟩
  · rw [readBuffers_eq, read, ← Ending.result?_eq_some_iff.1 ends]
    rfl
  · rw [List.map_map, List.map_map]
    rfl

/-- A reader of buffers that came to an end got what the stream brings. -/
theorem brings_of_readBuffers {patience most : Nat} {buffers : List Buffer}
    {sent : Except StreamError Unit}
    (read : s.readBuffers turns patience most state w = (.ok (buffers, .finished sent), after)) :
    ∃ chunks result, s.Brings turns state w chunks result after ∧ sent = result.mapError .render ∧
      buffers.map (·.bytes) = chunks.map (·.text.toUTF8) := by
  rw [readBuffers_eq] at read
  rcases same : s.readWithin turns patience most {} state w with ⟨message | ⟨arrivals, ending⟩, after'⟩ <;>
    rw [same] at read
  · cases read
  · simp only [Except.map, Prod.mk.injEq, Except.ok.injEq] at read
    obtain ⟨⟨rfl, ends⟩, rfl⟩ := read
    obtain ⟨result, isResult⟩ : ∃ result, ending.result? = some result := by
      cases ending <;> first | exact ⟨_, rfl⟩ | cases ends
    have sent := ends.symm.trans (Ending.result?_eq_some_iff.1 isResult)
    refine ⟨_, result, brings_of_read same isResult, Delivery.finished.inj sent, ?_⟩
    rw [List.map_map, List.map_map]
    rfl

end ChunkStream

end ProgressiveHtml
