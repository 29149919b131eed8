import ProgressiveHtml.Response

namespace ProgressiveHtml

/-!
# Responses — the steps of writing one out

Whatever is done with a response comes down to a few steps: a chunk is written or cannot be, the
response is flushed or cannot be, an error is recorded.  What holds of every step holds of every run.

* `Response.performed`, `Response.written` — what doing things in order leads to, and the chunks that
  were written meanwhile;
* `Response.Step`, `Response.Steps` — one step, and several with the chunks written in them;
* `Response.performed_steps` — doing things in order takes steps.
-/

namespace Writer

@[simp] theorem call_refuses (w : Writer) (c : WriterCall) : (w.call c).2.refuses = w.refuses := by
  unfold call
  dsimp only
  split <;> rfl

@[simp] theorem call_calls (w : Writer) (c : WriterCall) : (w.call c).2.calls = w.calls ++ [c] := by
  unfold call
  dsimp only
  split <;> rfl

theorem calls_of_call {w w' : Writer} {c : WriterCall} {result : Except String Unit}
    (called : w.call c = (result, w')) : w'.calls = w.calls ++ [c] := by
  simpa [called] using w.call_calls c

end Writer

namespace Response

/-! ### Doing things in order -/

/-- The response after things were done with it in order, each at its own time. -/
def performed (r : Response) : List (Nat × Operation) → Response
  | [] => r
  | (now, operation) :: rest => performed (r.perform now operation).1.2 rest

/-- A chunk that was handed over is written if there is something to write and nothing was refused. -/
def written? (chunk : Chunk) (result : Except StreamError Unit) : List Chunk :=
  if result.isOk && !chunk.isEmpty then [chunk] else []

/-- The chunks of a stream that are written: those in front of the first item that is refused. -/
def writtenOf (r : Response) (now : Nat) : List Item → List Chunk
  | [] => []
  | item :: rest =>
    match r.accept item now with
    | (.ok (), r') => (item.toOption.toList.flatMap (written? · (.ok ()))) ++ r'.writtenOf now rest
    | (.error _, _) => []

/-- The chunks that an operation writes. -/
def writtenBy (r : Response) (now : Nat) : Operation → List Chunk
  | .send chunk => written? chunk (r.send chunk now).1
  | .sendAll items => r.writtenOf now items
  | .complete => []

/-- The chunks that are written when things are done in order. -/
def written (r : Response) : List (Nat × Operation) → List Chunk
  | [] => []
  | (now, operation) :: rest =>
    r.writtenBy now operation ++ written (r.perform now operation).1.2 rest

/-! ### Steps -/

/-- One step of writing out a response, with the chunk that is written in it. -/
inductive Step (r : Response) : List Chunk → Response → Prop
  /-- A chunk is written. -/
  | wrote {chunk : Chunk} {writer : Writer} (now : Nat) (unended : r.phase.isTerminal = false)
      (text : chunk.isEmpty = false) (done : r.writer.write chunk.text = (.ok (), writer)) :
      Step r [chunk] ({ r with writer }.wrote chunk now)
  /-- A chunk cannot be written. -/
  | refused {chunk : Chunk} {writer : Writer} {message : String}
      (unended : r.phase.isTerminal = false)
      (failed : r.writer.write chunk.text = (.error message, writer)) : Step r [] { r with writer }
  /-- What was written is flushed, and the response ends as it should. -/
  | flushed {writer : Writer} (now : Nat) (done : r.writer.call .flush = (.ok (), writer)) :
      Step r [] { r with
        writer, phase := .completion, timing := r.timing.mark Timing.completeMark now }
  /-- What was written cannot be flushed. -/
  | unflushed {writer : Writer} {message : String}
      (failed : r.writer.call .flush = (.error message, writer)) : Step r [] { r with writer }
  /-- An error is recorded. -/
  | ended (message : String) : Step r [] { r with phase := .error message }

/-- Steps one after the other, with the chunks that are written in them. -/
inductive Steps : Response → List Chunk → Response → Prop
  | refl (r : Response) : Steps r [] r
  | head {r r' r'' : Response} {chunks later : List Chunk} (step : Step r chunks r')
      (rest : Steps r' later r'') : Steps r (chunks ++ later) r''

variable {r r' r'' : Response} {chunks later : List Chunk} {now : Nat}

theorem Step.single (step : Step r chunks r') : Steps r chunks r' := by
  simpa using Steps.head step (.refl r')

theorem Steps.trans (steps : Steps r chunks r') (rest : Steps r' later r'') :
    Steps r (chunks ++ later) r'' := by
  induction steps with
  | refl => exact rest
  | head step _ ih =>
    rw [List.append_assoc]
    exact .head step (ih rest)

/-- Nothing is done with a chunk once the response has ended. -/
theorem send_of_ended (ended : r.phase.isTerminal) (chunk : Chunk) :
    r.send chunk now = (.error .completed, r) := by
  simp [send, ended]

/-- Writing one chunk takes at most one step, in which the chunk is written if the outcome says so. -/
theorem send_steps (r : Response) (chunk : Chunk) (now : Nat) :
    Steps r (written? chunk (r.send chunk now).1) (r.send chunk now).2 := by
  unfold send
  split
  case isTrue => exact .refl r
  case isFalse unended =>
    have unended : r.phase.isTerminal = false := by simpa using unended
    split
    case isTrue empty =>
      rw [show written? chunk (.ok ()) = [] by simp [written?, empty]]
      exact .refl r
    case isFalse text =>
      have text : chunk.isEmpty = false := by simpa using text
      split
      · rename_i failed
        exact (Step.refused unended failed).single
      · rename_i done
        rw [show written? chunk (.ok ()) = [chunk] by simp [written?, text, Except.isOk, Except.toBool]]
        exact (Step.wrote now unended text done).single

theorem complete_steps (r : Response) (now : Nat) : Steps r [] (r.complete now).2 := by
  unfold complete
  split
  · rename_i failed
    exact (Step.unflushed failed).single
  · rename_i done
    exact (Step.flushed now done).single

theorem accept_steps_of_ok {item : Item} (taken : r.accept item now = (.ok (), r')) :
    Steps r (item.toOption.toList.flatMap (written? · (.ok ()))) r' := by
  unfold accept at taken
  cases item with
  | error error => simp at taken
  | ok chunk =>
    have steps := r.send_steps chunk now
    rcases sent : r.send chunk now with ⟨_ | _, after⟩ <;> rw [sent] at steps
    · simp [sent] at taken
    · obtain rfl : after = r' := by simpa [sent] using taken
      simpa [Except.toOption] using steps

theorem accept_steps_of_error {item : Item} {error : StreamError}
    (refused : r.accept item now = (.error error, r')) : Steps r [] r' := by
  unfold accept at refused
  cases item with
  | error reason =>
    obtain ⟨-, rfl⟩ := by simpa using refused
    exact (Step.ended _).single
  | ok chunk =>
    have steps := r.send_steps chunk now
    rcases sent : r.send chunk now with ⟨reason | _, after⟩ <;> rw [sent] at steps
    · obtain ⟨-, rfl⟩ := by simpa [sent] using refused
      exact steps.trans (Step.ended _).single
    · simp [sent] at refused

theorem sendAll_steps (items : List Item) (r : Response) (now : Nat) :
    Steps r (r.writtenOf now items) (r.sendAll now items).1.2 := by
  induction items generalizing r with
  | nil => exact r.complete_steps now
  | cons item rest ih =>
    rcases taken : r.accept item now with ⟨error | _, after⟩
    · simpa [sendAll, writtenOf, taken] using accept_steps_of_error taken
    · simpa [sendAll, writtenOf, taken] using (accept_steps_of_ok taken).trans (ih after)

theorem perform_steps (r : Response) (now : Nat) (operation : Operation) :
    Steps r (r.writtenBy now operation) (r.perform now operation).1.2 := by
  cases operation with
  | send chunk => exact r.send_steps chunk now
  | sendAll items => exact sendAll_steps items r now
  | complete => exact r.complete_steps now

/-- Doing things in order takes steps, in which the chunks are written that were not refused. -/
theorem performed_steps (operations : List (Nat × Operation)) (r : Response) :
    Steps r (r.written operations) (r.performed operations) := by
  induction operations generalizing r with
  | nil => exact .refl r
  | cons operation rest ih => exact (r.perform_steps operation.1 operation.2).trans (ih _)

end Response

end ProgressiveHtml
