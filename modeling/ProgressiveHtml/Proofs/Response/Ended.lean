import ProgressiveHtml.Proofs.Response.Steps

namespace ProgressiveHtml

/-!
# Responses — after the end

A response that has ended takes no more chunks.  It can still be flushed and ended again, and a stream
that is refused is recorded as its error; so its phase may change, though nothing is written.

* `Response.Sealed` — what stays of a response that has ended, whatever is done with it;
* `Response.Operation.Idle` — the operations that do nothing to such a response;
* `Response.stays_ended_iff` — it stays as it is exactly as long as nothing else is done with it;
* `Response.ends_twice` — it can end with an error and then as it should.
-/

namespace Response

/-- What stays of a response that has ended: it has ended, no buffer was handed over, and only the mark
    for the end may be another. -/
structure Sealed (r r' : Response) : Prop where
  ended : r'.phase.isTerminal
  chunks : r'.chunks = r.chunks
  bytes : r'.bytes = r.bytes
  calls : ∃ flushes, r'.writer.calls = r.writer.calls ++ List.replicate flushes .flush
  marks : ∀ name, name ≠ Timing.completeMark → r'.timing.at? name = r.timing.at? name

/-- Why a response that has ended refuses an item of a stream. -/
def refusal : Item → StreamError
  | .ok _ => .completed
  | .error error => .render error

/-- The operations that do nothing to a response which has ended in a phase: to hand over a chunk, or a
    stream that is refused for the reason which is recorded. -/
def Operation.Idle (phase : Phase) : Operation → Prop
  | .send _ => True
  | .sendAll (item :: _) => phase = .error (refusal item).message
  | .sendAll [] => False
  | .complete => False

variable {r r' r'' : Response} {chunks : List Chunk} {now : Nat}

theorem Sealed.refl (ended : r.phase.isTerminal) : Sealed r r :=
  ⟨ended, rfl, rfl, ⟨0, by simp⟩, fun _ _ => rfl⟩

theorem Sealed.trans (first : Sealed r r') (second : Sealed r' r'') : Sealed r r'' := by
  obtain ⟨flushes, calls⟩ := first.calls
  obtain ⟨later, calls'⟩ := second.calls
  refine ⟨second.ended, second.chunks.trans first.chunks, second.bytes.trans first.bytes,
    ⟨flushes + later, ?_⟩, fun name other => (second.marks name other).trans (first.marks name other)⟩
  rw [calls', calls, List.append_assoc, List.replicate_append_replicate]

/-- In a step of a response that has ended nothing is written. -/
theorem Step.sealed (step : Step r chunks r') (ended : r.phase.isTerminal) : Sealed r r' := by
  cases step with
  | wrote _ unended => simp [ended] at unended
  | refused unended => simp [ended] at unended
  | flushed now done =>
    exact ⟨rfl, rfl, rfl, ⟨1, Writer.calls_of_call done⟩, fun name other => by simp [other]⟩
  | unflushed failed => exact ⟨ended, rfl, rfl, ⟨1, Writer.calls_of_call failed⟩, fun _ _ => rfl⟩
  | ended message => exact ⟨rfl, rfl, rfl, ⟨0, by simp⟩, fun _ _ => rfl⟩

theorem Steps.sealed (steps : Steps r chunks r') (ended : r.phase.isTerminal) : Sealed r r' := by
  induction steps with
  | refl => exact .refl ended
  | head step _ ih =>
    have first := step.sealed ended
    exact first.trans (ih first.ended)

/-- To end a response makes one more call to its writer. -/
theorem complete_ne_self (r : Response) : (r.complete now).2 ≠ r := by
  intro same
  have calls : (r.complete now).2.writer.calls = r.writer.calls ++ [.flush] := by
    unfold complete
    split <;> rename_i called <;> exact Writer.calls_of_call called
  rw [same] at calls
  simp at calls

/-- The first item of a stream is recorded as the error of a response that has ended. -/
theorem accept_of_ended (ended : r.phase.isTerminal) (item : Item) : r.accept item now =
    (.error (refusal item), { r with phase := .error (refusal item).message }) := by
  cases item with
  | error error => rfl
  | ok chunk => simp [accept, send_of_ended ended, refusal]

/-- An operation does nothing to a response that has ended exactly if it is idle. -/
theorem perform_eq_self_iff (ended : r.phase.isTerminal) (operation : Operation) :
    (r.perform now operation).1.2 = r ↔ operation.Idle r.phase := by
  cases operation with
  | send chunk => exact iff_of_true (by rw [perform, send_of_ended ended]) trivial
  | complete => exact iff_of_false r.complete_ne_self id
  | sendAll items =>
    cases items with
    | nil => exact iff_of_false r.complete_ne_self id
    | cons item rest =>
      rw [perform, sendAll, accept_of_ended ended]
      constructor
      · intro same
        exact (congrArg phase same).symm
      · intro recorded
        rw [← (recorded : r.phase = .error (refusal item).message)]

/-- A response that has ended takes no more chunks: whatever is done with it, no buffer is handed to its
    writer, and its counters and its other marks stay.  All of it stays, with its phase, exactly as long
    as nothing is done with it but to hand over single chunks, or streams that are refused for the
    reason which is recorded. -/
theorem stays_ended_iff (ended : r.phase.isTerminal) (operations : List (Nat × Operation)) :
    Sealed r (r.performed operations) ∧
      ((∀ count, r.performed (operations.take count) = r) ↔
        ∀ operation ∈ operations, operation.2.Idle r.phase) := by
  refine ⟨(performed_steps operations r).sealed ended, ?_⟩
  induction operations with
  | nil => exact iff_of_true (fun _ => by rw [List.take_nil]; rfl) (by simp)
  | cons operation rest ih =>
    obtain ⟨now, operation⟩ := operation
    rw [List.forall_mem_cons, ← ih, ← perform_eq_self_iff ended]
    constructor
    · intro stays
      have first : (r.perform now operation).1.2 = r := stays 1
      refine ⟨first, fun count => ?_⟩
      have later : (r.perform now operation).1.2.performed (rest.take count) = r := stays (count + 1)
      rwa [first] at later
    · rintro ⟨first, later⟩ (_ | count)
      · rfl
      · show (r.perform now operation).1.2.performed (rest.take count) = r
        rw [first, later]

/-- A response that ended with an error: a chunk and the same error again leave it as it is. -/
theorem stays_ended_after_error :
    let r := ({ writer := { refuses := fun _ _ => none } } : Response).performed
      [(0, .sendAll [.error (.failed "down")])]
    let operations : List (Nat × Operation) :=
      [(1, .send (.literal "late")), (2, .sendAll [.error (.failed "down")])]
    r.phase = .error "Render error: Render failed: down" ∧ Sealed r (r.performed operations) ∧
      ∀ count, r.performed (operations.take count) = r := by
  intro r operations
  have phase : r.phase = .error "Render error: Render failed: down" := by decide +kernel
  obtain ⟨stays, same⟩ := stays_ended_iff (r := r) (by rw [phase]; rfl) operations
  refine ⟨phase, stays, same.2 ?_⟩
  intro operation isOne
  obtain rfl | rfl : operation = _ ∨ operation = _ := by simpa [operations] using isOne
  · trivial
  · exact phase

/-- A response can end with an error and after that as it should. -/
theorem ends_twice :
    let r := ({ writer := { refuses := fun _ _ => none } } : Response).performed
      [(0, .sendAll [.error (.failed "down")])]
    r.phase = .error "Render error: Render failed: down" ∧
      (r.performed [(1, .complete)]).phase = .completion ∧
      (r.performed [(1, .complete)]).timing.at? Timing.completeMark = some 1 ∧
      (r.performed [(1, .complete)]).writer.calls = r.writer.calls ++ [.flush] := by
  decide +kernel

end Response

end ProgressiveHtml
