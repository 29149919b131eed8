import Mathlib.Algebra.Ring.Nat
import ProgressiveHtml.Proofs.Response.Steps

namespace ProgressiveHtml

/-!
# Responses — the books and what was written

The counters, the marks and the phase of a response are its books.  They tell what was written: which
buffers the writer has taken and written through, and for which chunks.

* `Writer.delivered` — the buffers that a writer has written through, read off its calls;
* `Response.Books` — what the books of a response say when certain chunks were written;
* `Response.Step.books_after`, `Response.Steps.books_after` — every step keeps the books, and so does
  every run;
* `Response.keeps_books` — so it is whatever is done with a response.
-/

/-! ### What a writer has taken -/

/-- What a writer has taken in the course of its calls. -/
structure Intake where
  /-- The calls so far. -/
  calls : List WriterCall := []
  /-- The buffer that was handed over last, if it was not refused and nothing came after it. -/
  held : Option String := none
  /-- The buffers that were handed over and flushed at once, in order. -/
  delivered : List String := []

/-- One more call, which may be refused. -/
def Intake.after (refuses : List WriterCall → WriterCall → Option String) (i : Intake)
    (c : WriterCall) : Intake where
  calls := i.calls ++ [c]
  held :=
    match c with
    | .send text => if (refuses i.calls c).isNone then some text else none
    | _ => none
  delivered :=
    match c with
    | .flush => i.delivered ++ if (refuses i.calls c).isNone then i.held.toList else []
    | _ => i.delivered

namespace Writer

/-- What a writer has taken. -/
def intake (w : Writer) : Intake := w.calls.foldl (Intake.after w.refuses) {}

/-- The buffers that a writer has written through, in order. -/
def delivered (w : Writer) : List String := w.intake.delivered

theorem intake_calls (w : Writer) : w.intake.calls = w.calls := by
  have all (calls : List WriterCall) (i : Intake) :
      (calls.foldl (Intake.after w.refuses) i).calls = i.calls ++ calls := by
    induction calls generalizing i with
    | nil => simp
    | cons c rest ih => simp [ih, Intake.after]
  simpa [intake] using all w.calls {}

/-- A call is refused as the writer decides from the calls before. -/
theorem refuses_of_call {w w' : Writer} {c : WriterCall} {result : Except String Unit}
    (called : w.call c = (result, w')) : (w.refuses w.calls c).isNone = result.isOk := by
  unfold call at called
  dsimp only at called
  split at called <;> rename_i refused <;> obtain ⟨rfl, -⟩ := Prod.mk.inj called <;> rw [refused] <;> rfl

theorem intake_call (w : Writer) (c : WriterCall) :
    (w.call c).2.intake = w.intake.after w.refuses c := by
  simp [intake, List.foldl_append]

variable {w w' : Writer} {text : String}

/-- After a flush that was not refused, the buffer that was held is written through. -/
theorem intake_of_flush {result : Except String Unit} (called : w.call .flush = (result, w')) :
    w'.intake.held = none ∧
      w'.delivered = w.delivered ++ if result.isOk then w.intake.held.toList else [] := by
  have taken := w.intake_call .flush
  rw [called] at taken
  rw [delivered, taken, Intake.after, intake_calls, refuses_of_call called]
  exact ⟨rfl, rfl⟩

/-- A buffer that was written is written through. -/
theorem delivered_of_write (done : w.write text = (.ok (), w')) :
    w'.intake.held = none ∧ w'.delivered = w.delivered ++ [text] := by
  -- All three calls have gone well: the writer was ready, took the text and was flushed.
  unfold write callAll at done
  split at done
  · simp at done
  rename_i w₁ isReady
  unfold callAll at done
  split at done
  · simp at done
  rename_i w₂ isSent
  unfold callAll at done
  split at done
  · simp at done
  rename_i w₃ isFlushed
  obtain rfl : w₃ = w' := by simpa [callAll] using done
  have first := w.intake_call .ready
  have second := w₁.intake_call (.send text)
  rw [isReady] at first
  rw [isSent] at second
  obtain ⟨held, delivered⟩ := intake_of_flush isFlushed
  refine ⟨held, ?_⟩
  -- Between the last two calls the text is held, and nothing else is.
  have isHeld : w₂.intake.held = some text := by
    rw [second, Intake.after, intake_calls, refuses_of_call isSent]
    rfl
  have before : w₂.delivered = w.delivered := by
    rw [Writer.delivered, second, Intake.after, first]
    rfl
  rw [delivered, isHeld, before]
  rfl

/-- A buffer that could not be written is not written through. -/
theorem delivered_of_refused {message : String} (failed : w.write text = (.error message, w')) :
    w'.intake.held = none ∧ w'.delivered = w.delivered := by
  -- One of the three calls has failed; until then the text was held at most, which is dropped.
  unfold write callAll at failed
  split at failed
  · rename_i isReady
    obtain ⟨-, rfl⟩ := Prod.mk.inj failed
    have first := w.intake_call .ready
    rw [isReady] at first
    rw [delivered, first]
    exact ⟨rfl, rfl⟩
  rename_i w₁ isReady
  have first := w.intake_call .ready
  rw [isReady] at first
  unfold callAll at failed
  split at failed
  · rename_i isSent
    obtain ⟨-, rfl⟩ := Prod.mk.inj failed
    have second := w₁.intake_call (.send text)
    rw [isSent] at second
    rw [delivered, second, Intake.after, intake_calls, refuses_of_call isSent, first]
    exact ⟨rfl, rfl⟩
  rename_i w₂ isSent
  have second := w₁.intake_call (.send text)
  rw [isSent] at second
  unfold callAll at failed
  split at failed
  · rename_i isFlushed
    obtain ⟨-, rfl⟩ := Prod.mk.inj failed
    obtain ⟨held, delivered⟩ := intake_of_flush isFlushed
    refine ⟨held, ?_⟩
    rw [delivered, Writer.delivered, second, Intake.after, first]
    exact List.append_nil _
  · simp [callAll] at failed

end Writer

/-! ### Marks -/

namespace Timing

theorem patchMark_toList (slot : String) :
    (patchMark slot).toList = patchStem ++ slot.toList ++ patchEnding :=
  String.toList_ofList

theorem patchMark_injective : Function.Injective patchMark := by
  intro slot other same
  have same := congrArg String.toList same
  rw [patchMark_toList, patchMark_toList, List.append_left_inj, List.append_right_inj] at same
  exact String.toList_injective same

/-- The mark of a patch is none of the marks for the first chunk and for the end. -/
theorem patchMark_ne_shellMark (slot : String) : patchMark slot ≠ shellMark := by
  intro same
  have first := congrArg (·.toList.head?) same
  simp [patchMark_toList, patchStem, shellMark] at first

theorem patchMark_ne_completeMark (slot : String) : patchMark slot ≠ completeMark := by
  intro same
  have first := congrArg (·.toList.head?) same
  simp [patchMark_toList, patchStem, completeMark] at first

theorem shellMark_ne_completeMark : shellMark ≠ completeMark := by decide

variable (t : Timing) (slot other : String) (time : Nat)

@[simp] theorem patchAt?_markPatch :
    (t.markPatch slot time).patchAt? other = if other = slot then some time else t.patchAt? other := by
  simp [patchAt?, markPatch, patchMark_injective.eq_iff]

@[simp] theorem shell?_markPatch : (t.markPatch slot time).shell? = t.shell? := by
  simp [shell?, markPatch, (patchMark_ne_shellMark slot).symm]

@[simp] theorem patchAt?_shell : (t.mark shellMark time).patchAt? slot = t.patchAt? slot := by
  simp [patchAt?, patchMark_ne_shellMark]

@[simp] theorem shell?_shell : (t.mark shellMark time).shell? = some time := by
  simp [shell?]

@[simp] theorem patchAt?_complete : (t.mark completeMark time).patchAt? slot = t.patchAt? slot := by
  simp [patchAt?, patchMark_ne_completeMark]

@[simp] theorem shell?_complete : (t.mark completeMark time).shell? = t.shell? := by
  simp [shell?, shellMark_ne_completeMark]

end Timing

/-! ### The books -/

/-- The phase of a response that has not ended when certain chunks were written: that of the last
    patch, if there was one. -/
def Phase.after (written : List Chunk) : Phase :=
  match (written.filterMap Chunk.slot?).getLast? with
  | some slot => .patchSent slot
  | none => if written = [] then .start else .shellSent

namespace Phase

variable {written : List Chunk}

theorem after_eq_start_iff : after written = .start ↔ written = [] := by
  constructor
  · intro isStart
    unfold after at isStart
    split at isStart
    · cases isStart
    · by_contra something
      rw [if_neg something] at isStart
      cases isStart
  · rintro rfl
    rfl

/-- The phase after one more chunk. -/
theorem after_append (written : List Chunk) (chunk : Chunk) : after (written ++ [chunk]) =
    match chunk.slot? with
    | some slot => .patchSent slot
    | none => if after written = .start then .shellSent else after written := by
  cases hasSlot : chunk.slot? with
  | some slot => simp [after, hasSlot]
  | none =>
    by_cases nothing : written = []
    · simp [after, hasSlot, nothing]
    · rw [if_neg (mt after_eq_start_iff.1 nothing)]
      simp [after, hasSlot, nothing]

end Phase

namespace Response

/-- What the books of a response say when certain chunks were written. -/
structure Books (written : List Chunk) (r : Response) : Prop where
  texts : ∀ chunk ∈ written, chunk.isEmpty = false
  /-- The writer has written the texts of the chunks through, unchanged and in order. -/
  delivered : r.writer.delivered = written.map Chunk.text
  /-- The writer has no buffer that was not flushed. -/
  nothingHeld : r.writer.intake.held = none
  chunks : r.chunks = written.length
  bytes : r.bytes = (written.map Chunk.byteSize).sum
  shell : r.timing.shell?.isSome ↔ 0 < r.chunks
  patches : ∀ slot, (r.timing.patchAt? slot).isSome ↔ ∃ markup, .patch slot markup ∈ written
  phase : r.phase.isTerminal = false → r.phase = .after written

variable {written chunks : List Chunk} {r r' : Response} {chunk : Chunk} {now : Nat}

theorem wrote_writer (r : Response) : (r.wrote chunk now).writer = r.writer := by
  unfold wrote
  dsimp only
  split <;> split <;> rfl

theorem wrote_chunks (r : Response) : (r.wrote chunk now).chunks = r.chunks + 1 := by
  unfold wrote
  dsimp only
  split <;> split <;> rfl

theorem wrote_bytes (r : Response) : (r.wrote chunk now).bytes = r.bytes + chunk.byteSize := by
  unfold wrote
  dsimp only
  split <;> split <;> rfl

theorem wrote_phase (r : Response) : (r.wrote chunk now).phase =
    match chunk.slot? with
    | some slot => .patchSent slot
    | none => if r.phase = .start then .shellSent else r.phase := by
  unfold wrote
  dsimp only
  cases chunk.slot? with
  | some slot => rfl
  | none =>
    dsimp only
    split <;> rfl

/-- To write a chunk does not end a response. -/
theorem wrote_unended (unended : r.phase.isTerminal = false) :
    (r.wrote chunk now).phase.isTerminal = false := by
  rw [wrote_phase]
  split
  · rfl
  · split
    · rfl
    · exact unended

/-- The first chunk sets the mark for the shell, whatever kind of chunk it is. -/
theorem wrote_shell (r : Response) : (r.wrote chunk now).timing.shell? =
    if r.phase = .start then some now else r.timing.shell? := by
  unfold wrote
  dsimp only
  split <;> split <;> simp

theorem wrote_patch (r : Response) (slot : String) : (r.wrote chunk now).timing.patchAt? slot =
    if chunk.slot? = some slot then some now else r.timing.patchAt? slot := by
  unfold wrote
  dsimp only
  cases chunk.slot? with
  | some other =>
    dsimp only
    split <;> simp [eq_comm]
  | none =>
    dsimp only
    split <;> simp

/-- What concerns the writer alone. -/
theorem Books.rewrite {writer : Writer} (books : Books written r)
    (delivered : writer.delivered = r.writer.delivered) (nothingHeld : writer.intake.held = none) :
    Books written { r with writer } :=
  { books with delivered := delivered.trans books.delivered, nothingHeld }

/-- Writing a chunk keeps the books. -/
theorem Books.wrote {writer : Writer} (books : Books written r) (unended : r.phase.isTerminal = false)
    (text : chunk.isEmpty = false) (done : r.writer.write chunk.text = (.ok (), writer)) :
    Books (written ++ [chunk]) ({ r with writer }.wrote chunk now) := by
  obtain ⟨nothingHeld, delivered⟩ := Writer.delivered_of_write done
  have phase := books.phase unended
  constructor
  case texts => simpa [or_imp, forall_and, text] using books.texts
  case delivered => rw [wrote_writer, delivered, books.delivered, List.map_append]; rfl
  case nothingHeld => rw [wrote_writer, nothingHeld]
  case chunks => rw [wrote_chunks, List.length_append, ← books.chunks]; rfl
  case bytes => rw [wrote_bytes, List.map_append, List.sum_append, ← books.bytes]; simp
  case shell =>
    -- The mark was set before if this is not the first chunk.
    rw [wrote_shell, wrote_chunks]
    refine iff_of_true ?_ (Nat.succ_pos _)
    split
    · rfl
    · rename_i goesOn
      refine books.shell.2 ?_
      rw [books.chunks, List.length_pos_iff]
      rintro rfl
      exact goesOn phase
  case patches =>
    intro slot
    rw [wrote_patch]
    split
    · rename_i hasSlot
      cases chunk <;> simp_all [Chunk.slot?]
    · rename_i other
      rw [books.patches slot]
      refine exists_congr fun markup => ?_
      have another : .patch slot markup ≠ chunk := by
        rintro rfl
        exact other rfl
      simp [another]
  case phase =>
    intro _
    rw [wrote_phase, Phase.after_append, ← phase]

/-- Every step keeps the books. -/
theorem Step.books_after (step : Step r chunks r') (books : Books written r) :
    Books (written ++ chunks) r' := by
  cases step with
  | wrote now unended text done => exact books.wrote unended text done
  | refused unended failed =>
    obtain ⟨nothingHeld, delivered⟩ := Writer.delivered_of_refused failed
    rw [List.append_nil]
    exact books.rewrite delivered nothingHeld
  | flushed now done =>
    obtain ⟨nothingHeld, delivered⟩ := Writer.intake_of_flush done
    -- Nothing is held between steps, so that flushing delivers nothing more.
    rw [books.nothingHeld] at delivered
    have books := books.rewrite (delivered.trans (by simp)) nothingHeld
    rw [List.append_nil]
    exact { books with
      shell := by simpa using books.shell
      patches := by simpa using books.patches
      phase := fun unended => by cases unended }
  | unflushed failed =>
    obtain ⟨nothingHeld, delivered⟩ := Writer.intake_of_flush failed
    rw [List.append_nil]
    exact books.rewrite (delivered.trans (List.append_nil _)) nothingHeld
  | ended message =>
    rw [List.append_nil]
    exact { books with phase := fun unended => by cases unended }

/-- Every run keeps the books. -/
theorem Steps.books_after (steps : Steps r chunks r') (books : Books written r) :
    Books (written ++ chunks) r' := by
  induction steps generalizing written with
  | refl => simpa using books
  | head step _ ih =>
    rw [← List.append_assoc]
    exact ih (step.books_after books)

/-- The books of a response with which nothing was done. -/
theorem books_fresh (refuses : List WriterCall → WriterCall → Option String) :
    Books [] { writer := { refuses } } := by
  constructor <;> simp [Writer.delivered, Writer.intake, Timing.shell?, Timing.patchAt?, Timing.at?,
    Named.get?, Phase.after]

/-- A chunk that is refused leaves all but the writer as it was. -/
theorem send_of_error {error : StreamError} (failed : (r.send chunk now).1 = .error error) :
    (r.send chunk now).2 = { r with writer := (r.send chunk now).2.writer } := by
  unfold send at failed ⊢
  split at failed
  · rename_i ended
    rw [if_pos ended]
  · rename_i unended
    rw [if_neg unended]
    split at failed
    · cases failed
    · rename_i text
      rw [if_neg text]
      split at failed
      · rename_i refused
        simp
      · cases failed

/-- Whatever is done with a response, its books tell which chunks were written; and a chunk that is
    refused leaves the books as they were. -/
theorem keeps_books (refuses : List WriterCall → WriterCall → Option String)
    (operations : List (Nat × Operation)) :
    let fresh : Response := { writer := { refuses } }
    Books (fresh.written operations) (fresh.performed operations) ∧
      ∀ chunk now error, ((fresh.performed operations).send chunk now).1 = .error error →
        ((fresh.performed operations).send chunk now).2 =
          { fresh.performed operations with
            writer := ((fresh.performed operations).send chunk now).2.writer } := by
  intro fresh
  refine ⟨?_, fun chunk now error failed => send_of_error failed⟩
  exact (performed_steps operations fresh).books_after (books_fresh refuses)

/-- A writer that refuses the second buffer: a patch was written, and the chunk behind it was not. -/
theorem keeps_books_refused :
    let refuses := ({ send := some ⟨2, "gone"⟩ } : FaultPlan).writer.refuses
    let r := ({ writer := { refuses } } : Response).performed
      [(0, .send (.patch "slot-0" "late")), (1, .send (.literal ""))]
    Books [.patch "slot-0" "late"] r ∧ (r.send (.literal "end") 2).1 = .error (.sink "gone") ∧
      (r.send (.literal "end") 2).2 = { r with writer := (r.send (.literal "end") 2).2.writer } := by
  intro refuses r
  obtain ⟨books, keeps⟩ := keeps_books refuses
    [(0, .send (.patch "slot-0" "late")), (1, .send (.literal ""))]
  have failed : (r.send (.literal "end") 2).1 = .error (.sink "gone") := by decide +kernel
  have written : ({ writer := { refuses } } : Response).written
      [(0, .send (.patch "slot-0" "late")), (1, .send (.literal ""))] = [.patch "slot-0" "late"] := by
    decide +kernel
  rw [written] at books
  exact ⟨books, failed, keeps _ _ _ failed⟩

end Response

end ProgressiveHtml
