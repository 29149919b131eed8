import ProgressiveHtml.Proofs.Reader.Steady
import ProgressiveHtml.Proofs.EventLoop.Racing
import ProgressiveHtml.Proofs.Response.Books

namespace ProgressiveHtml

/-!
# Readers — what a stream brings

What a stream brings does not depend on how patient its reader is.  So it can be told without a reader,
and every reader that is patient enough gets just this: chunk by chunk, as one text, or into a response.

* `ChunkStream.Steady.next_longer` — a reader that is more patient gets the same answer;
* `ChunkStream.Brings`, `ChunkStream.BringsBy` — the chunks that a stream brings, and how it ends;
* `ChunkStream.BringsBy.read`, `ChunkStream.BringsBy.collect`, `ChunkStream.BringsBy.respond` — what a
  patient reader gets;
* `ChunkStream.brings_of_read`, `ChunkStream.brings_of_collect`, `ChunkStream.brings_of_respond` — what any
  reader got that came to an end.
-/

/-- How the reading of a stream chunk by chunk ends, unless it is given up. -/
def Ending.result? {σ : Type} : Ending σ → Option (Except RenderError Unit)
  | .done => some (.ok ())
  | .failed _ error _ => some (.error error)
  | .stalled | .dropped => none

/-- The phase of a response once the stream that was written into it has ended. -/
def Phase.ending : Except RenderError Unit → Phase
  | .ok () => .completion
  | .error reason => .error (StreamError.render reason).message

namespace EventLoop

/-- Sleeping for no time at all is doing nothing. -/
theorem sleep_zero (w : EventLoop) (turns : Nat) : w.sleep turns 0 = w := by
  have late : w.now + 0 ≤ w.now := Nat.le_refl _
  rw [sleep, wait, waitRounds]
  simp only [never, late, if_true]

/-- An earlier limit takes time no further than itself, and otherwise as far as a later one. -/
theorem nextInstant_min (w : EventLoop) (alarms : List Alarm) (limit later : Nat) :
    w.nextInstant alarms (min limit later) = min limit (w.nextInstant alarms later) := by
  refine eq_of_forall_le_iff fun instant => ?_
  rw [le_nextInstant_iff, Nat.le_min, Nat.le_min, le_nextInstant_iff, and_assoc]

end EventLoop

namespace ChunkStream

variable {σ : Type} {s : ChunkStream σ}

section Steady

variable (steady : s.Steady) {turns : Nat} {state : σ} {w after : EventLoop}

include steady

/-- Where a limit stops the time before the next sleep ends, waiting is given up. -/
theorem Steady.gives_up {limit longer : Nat} (rounds : Nat) {left : σ}
    (polled : s.poll state w = (.pending left, after))
    (now : after.nextInstant (s.alarms left) limit = limit)
    (stops : limit < after.nextInstant (s.alarms left) longer) :
    ∃ last later, EventLoop.waitRounds s.toAwaitable turns limit rounds left
      (after.jump (s.alarms left) limit) = (.expired last, later) := by
  obtain ⟨left', later, again⟩ := steady.again polled { after.timeline with now := limit }
    (after.registry.due limit) fun alarm isRunning ahead => Nat.lt_of_lt_of_le stops
      (after.nextInstant_le longer (List.mem_append_left _ isRunning) ahead)
  have still : later.now = limit := by
    have same := steady.now left { after with
      timeline := { after.timeline with now := limit }
      registry := { after.registry with queue := after.registry.due limit } }
    rw [again] at same
    exact same
  cases rounds with
  | zero => exact ⟨_, _, rfl⟩
  | succ rounds =>
    refine ⟨left', later, ?_⟩
    rw [EventLoop.waitRounds, EventLoop.jump, now, again]
    simp only [still, Nat.le_refl, if_true]

/-- A reader that is more patient gets the same answer, in as many rounds. -/
theorem Steady.waitRounds_longer {limit longer : Nat} (more : limit ≤ longer) {rounds others : Nat}
    (enough : rounds ≤ others) {waited : Waited σ (Option Item)}
    (asked : EventLoop.waitRounds s.toAwaitable turns limit rounds state w = (waited, after))
    (answered : waited.answer? ≠ none) :
    EventLoop.waitRounds s.toAwaitable turns longer others state w = (waited, after) := by
  induction rounds generalizing others state w with
  | zero =>
    cases asked
    exact absurd rfl answered
  | succ rounds ih =>
    cases others with
    | zero => cases enough
    | succ others =>
      have enough := Nat.le_of_succ_le_succ enough
      rw [EventLoop.waitRounds] at asked ⊢
      rcases polled : s.poll state w with ⟨answer | left | message, w'⟩ <;> rw [polled] at asked
      · exact asked
      · dsimp only at asked ⊢
        by_cases late : limit ≤ w'.now
        · rw [if_pos late] at asked
          cases asked
          exact absurd rfl answered
        · rw [if_neg late] at asked
          rw [if_neg (by omega)]
          split at asked
          · rename_i idle
            rw [if_pos idle]
            have instant := w'.nextInstant_min (s.alarms left) limit longer
            rw [Nat.min_eq_left more] at instant
            by_cases stops : limit < w'.nextInstant (s.alarms left) longer
            · rw [Nat.min_eq_left (Nat.le_of_lt stops)] at instant
              obtain ⟨last, later, expired⟩ := steady.gives_up rounds polled instant stops
              rw [expired] at asked
              cases asked
              exact absurd rfl answered
            · -- The next sleep ends by the earlier limit.
              rw [Nat.min_eq_right (Nat.le_of_not_lt stops)] at instant
              rw [EventLoop.jump, ← instant]
              exact ih enough asked
          · rename_i busy
            rw [if_neg busy]
            exact ih enough asked
      · exact asked

/-- A reader that is more patient gets the same answer. -/
theorem Steady.next_longer {limit longer : Nat} (more : limit ≤ longer)
    {waited : Waited σ (Option Item)} (asked : s.next turns limit state w = (waited, after))
    (answered : waited.answer? ≠ none) : s.next turns longer state w = (waited, after) :=
  steady.waitRounds_longer more (by omega) asked answered

end Steady

/-! ### What a stream brings -/

/-- The chunks that a stream brings when it is asked for one after the other, and whether it then ends or
    with which error; `turns` bounds the number of late fragments, as for the readers. -/
inductive Brings (s : ChunkStream σ) (turns : Nat) :
    σ → EventLoop → List Chunk → Except RenderError Unit → EventLoop → Prop
  | ended {limit : Nat} {state last : σ} {w after : EventLoop}
      (got : s.next turns limit state w = (.ready none last, after)) :
      Brings s turns state w [] (.ok ()) after
  | failed {limit : Nat} {state last : σ} {w after : EventLoop} {error : RenderError}
      (got : s.next turns limit state w = (.ready (some (.error error)) last, after)) :
      Brings s turns state w [] (.error error) after
  | chunk {limit : Nat} {state next : σ} {w w' after : EventLoop} {chunk : Chunk}
      {chunks : List Chunk} {result : Except RenderError Unit}
      (got : s.next turns limit state w = (.ready (some (.ok chunk)) next, w'))
      (rest : Brings s turns next w' chunks result after) :
      Brings s turns state w (chunk :: chunks) result after

/-- The text of chunks, one after the other. -/
def textOf (chunks : List Chunk) : String := String.join (chunks.map Chunk.text)

/-- What the reading of a stream into one text comes to. -/
def collected (chunks : List Chunk) (result : Except RenderError Unit) : Except StreamError String :=
  (result.map fun _ => textOf chunks).mapError .render

/-- With one more chunk, the text is longer. -/
theorem collected_cons (chunk : Chunk) (chunks : List Chunk) (result : Except RenderError Unit) :
    collected (chunk :: chunks) result = (collected chunks result).map (chunk.text ++ ·) := by
  cases result with
  | ok => simp [collected, Except.map, Except.mapError, textOf, String.join_cons]
  | error => rfl

variable {turns : Nat} {state : σ} {w after : EventLoop} {chunks : List Chunk}
  {result : Except RenderError Unit}

/-- A stream brings the same to every reader. -/
theorem Brings.unique (steady : s.Steady) (brings : s.Brings turns state w chunks result after)
    {chunks' : List Chunk} {result' : Except RenderError Unit} {after' : EventLoop}
    (others : s.Brings turns state w chunks' result' after') :
    chunks = chunks' ∧ result = result' ∧ after = after' := by
  -- The more patient of two readers gets the answers of both.
  have same {state : σ} {w v v' : EventLoop} {limit limit' : Nat} {answer answer' : Option Item}
      {left left' : σ} (got : s.next turns limit state w = (.ready answer left, v))
      (got' : s.next turns limit' state w = (.ready answer' left', v')) :
      (answer, left, v) = (answer', left', v') := by
    have got := steady.next_longer (Nat.le_max_left limit limit') got nofun
    rw [steady.next_longer (Nat.le_max_right limit limit') got' nofun] at got
    cases got
    rfl
  induction brings generalizing chunks' with
  | ended got =>
    cases others with
    | ended got' => cases same got got'; exact ⟨rfl, rfl, rfl⟩
    | failed got' | chunk got' => cases same got got'
  | failed got =>
    cases others with
    | failed got' => cases same got got'; exact ⟨rfl, rfl, rfl⟩
    | ended got' | chunk got' => cases same got got'
  | chunk got _ ih =>
    cases others with
    | chunk got' rest =>
      cases same got got'
      obtain ⟨rfl, rfl, rfl⟩ := ih rest
      exact ⟨rfl, rfl, rfl⟩
    | ended got' | failed got' => cases same got got'

/-- What a stream brings to every reader that waits for each chunk up to the instant `enough` or longer. -/
inductive BringsBy (s : ChunkStream σ) (turns enough : Nat) :
    σ → EventLoop → List Chunk → Except RenderError Unit → EventLoop → Prop
  | ended {state last : σ} {w after : EventLoop}
      (got : ∀ limit, enough ≤ limit → s.next turns limit state w = (.ready none last, after)) :
      BringsBy s turns enough state w [] (.ok ()) after
  | failed {state last : σ} {w after : EventLoop} {error : RenderError}
      (got : ∀ limit, enough ≤ limit →
        s.next turns limit state w = (.ready (some (.error error)) last, after)) :
      BringsBy s turns enough state w [] (.error error) after
  | chunk {state next : σ} {w w' after : EventLoop} {chunk : Chunk} {chunks : List Chunk}
      {result : Except RenderError Unit}
      (got : ∀ limit, enough ≤ limit →
        s.next turns limit state w = (.ready (some (.ok chunk)) next, w'))
      (rest : BringsBy s turns enough next w' chunks result after) :
      BringsBy s turns enough state w (chunk :: chunks) result after

theorem BringsBy.later {enough later : Nat} (more : enough ≤ later)
    (brings : s.BringsBy turns enough state w chunks result after) :
    s.BringsBy turns later state w chunks result after := by
  induction brings with
  | ended got => exact .ended fun limit patient => got limit (Nat.le_trans more patient)
  | failed got => exact .failed fun limit patient => got limit (Nat.le_trans more patient)
  | chunk got _ ih => exact .chunk (fun limit patient => got limit (Nat.le_trans more patient)) ih

/-- A stream brings the same to every reader that is patient enough. -/
theorem Brings.patiently (steady : s.Steady)
    (brings : s.Brings turns state w chunks result after) :
    ∃ enough, s.BringsBy turns enough state w chunks result after := by
  induction brings with
  | ended got => exact ⟨_, .ended fun limit patient => steady.next_longer patient got nofun⟩
  | failed got => exact ⟨_, .failed fun limit patient => steady.next_longer patient got nofun⟩
  | @chunk first state next w w' after chunk chunks result got _ ih =>
    obtain ⟨enough, rest⟩ := ih
    refine ⟨max first enough, .chunk (fun limit patient => ?_) (rest.later (Nat.le_max_right ..))⟩
    exact steady.next_longer (le_of_max_le_left patient) got nofun

/-! #### Chunk by chunk -/

/-- One more chunk, read without a pause. -/
theorem readWithin_succ (patience most : Nat) :
    s.readWithin turns patience (most + 1) {} state w =
      match s.next turns (w.now + patience) state w with
      | (.panicked message, w) => (.error message, w)
      | (.expired _, w) => (.ok ([], .stalled), w)
      | (.ready none _, w) => (.ok ([], .done), w)
      | (.ready (some (.error error)) state, w) => (.ok ([], .failed w.now error state), w)
      | (.ready (some (.ok chunk)) state, w) =>
        prepend ⟨w.now, chunk⟩ (s.readWithin turns patience most {} state w) := by
  rw [readWithin, if_neg (by simp)]
  simp only [List.headD_nil, EventLoop.sleep_zero]
  rfl

/-- A patient reader gets the chunks that the stream brings. -/
theorem BringsBy.read {enough patience most : Nat}
    (brings : s.BringsBy turns enough state w chunks result after) (patient : enough ≤ patience)
    (more : chunks.length < most) : ∃ arrivals ending,
      s.readWithin turns patience most {} state w = (.ok (arrivals, ending), after) ∧
      arrivals.map (·.chunk) = chunks ∧ ending.result? = some result := by
  induction brings generalizing most with
  | ended got =>
    obtain ⟨most, rfl⟩ := Nat.exists_eq_succ_of_ne_zero (Nat.ne_of_gt more)
    rw [readWithin_succ, got _ (Nat.le_add_left_of_le patient)]
    exact ⟨_, _, rfl, rfl, rfl⟩
  | failed got =>
    obtain ⟨most, rfl⟩ := Nat.exists_eq_succ_of_ne_zero (Nat.ne_of_gt more)
    rw [readWithin_succ, got _ (Nat.le_add_left_of_le patient)]
    exact ⟨_, _, rfl, rfl, rfl⟩
  | @chunk state next w w' after chunk chunks result got _ ih =>
    obtain ⟨most, rfl⟩ := Nat.exists_eq_succ_of_ne_zero (Nat.ne_of_gt (Nat.zero_lt_of_lt more))
    obtain ⟨arrivals, ending, read, same, ends⟩ := ih (Nat.lt_of_succ_lt_succ more)
    rw [readWithin_succ, got _ (Nat.le_add_left_of_le patient)]
    dsimp only
    rw [read]
    exact ⟨⟨w'.now, chunk⟩ :: arrivals, ending, rfl, congrArg (chunk :: ·) same, ends⟩

/-- What is read chunk by chunk is what the stream brings. -/
theorem brings_of_read {patience most : Nat} {arrivals : List Arrival} {ending : Ending σ}
    (read : s.readWithin turns patience most {} state w = (.ok (arrivals, ending), after))
    (ends : ending.result? = some result) :
    s.Brings turns state w (arrivals.map (·.chunk)) result after := by
  -- By induction on the chunks that may still be read: only the end of the stream has a result.
  induction most generalizing state w arrivals with
  | zero =>
    cases read
    cases ends
  | succ most ih =>
    rw [readWithin_succ] at read
    split at read <;> rename_i got
    · cases read
    · cases read
      cases ends
    · cases read
      cases ends
      exact .ended got
    · cases read
      cases ends
      exact .failed got
    · rename_i chunk next w'
      rcases others : s.readWithin turns patience most {} next w' with ⟨message | ⟨later, last⟩, w''⟩ <;>
        rw [others] at read <;> cases read
      exact .chunk got (ih others)

/-- A reader without a limit of its own does not give the stream up. -/
theorem not_dropped {patience most : Nat} {arrivals : List Arrival} :
    s.readWithin turns patience most {} state w ≠ (.ok (arrivals, .dropped), after) := by
  intro read
  induction most generalizing state w arrivals with
  | zero => cases read
  | succ most ih =>
    rw [readWithin_succ] at read
    split at read
    · cases read
    · cases read
    · cases read
    · cases read
    · rename_i chunk next w' _
      rcases others : s.readWithin turns patience most {} next w' with ⟨message | ⟨later, last⟩, w''⟩ <;>
        rw [others] at read <;> cases read
      exact ih others

/-! #### Into one text -/

/-- A patient reader gets the text that the stream brings, or its error. -/
theorem BringsBy.collect {enough limit most : Nat}
    (brings : s.BringsBy turns enough state w chunks result after) (patient : enough ≤ limit)
    (more : chunks.length < most) :
    s.collect turns limit most state w = (.ok (some (collected chunks result)), after) := by
  induction brings generalizing most with
  | ended got =>
    obtain ⟨most, rfl⟩ := Nat.exists_eq_succ_of_ne_zero (Nat.ne_of_gt more)
    rw [ChunkStream.collect, got limit patient]
    rfl
  | failed got =>
    obtain ⟨most, rfl⟩ := Nat.exists_eq_succ_of_ne_zero (Nat.ne_of_gt more)
    rw [ChunkStream.collect, got limit patient]
    rfl
  | @chunk state next w w' after chunk chunks result got _ ih =>
    obtain ⟨most, rfl⟩ := Nat.exists_eq_succ_of_ne_zero (Nat.ne_of_gt (Nat.zero_lt_of_lt more))
    rw [ChunkStream.collect, got limit patient]
    dsimp only
    rw [ih (Nat.lt_of_succ_lt_succ more), collected_cons]
    cases collected chunks result with
    | ok => rfl
    | error => rfl

/-- What is read into a text is what the stream brings. -/
theorem brings_of_collect {limit most : Nat} {read : Except StreamError String}
    (asked : s.collect turns limit most state w = (.ok (some read), after)) :
    ∃ chunks result, s.Brings turns state w chunks result after ∧ read = collected chunks result := by
  induction most generalizing state w read with
  | zero => cases asked
  | succ most ih =>
    rw [ChunkStream.collect] at asked
    split at asked <;> rename_i got
    · cases asked
    · cases asked
    · cases asked
      exact ⟨_, _, .ended got, rfl⟩
    · cases asked
      exact ⟨_, _, .failed got, rfl⟩
    · rename_i chunk next w'
      rcases others : s.collect turns limit most next w' with ⟨message | _ | rest, w''⟩ <;>
        rw [others] at asked
      · cases asked
      · cases asked
      · obtain ⟨rfl, rfl⟩ : read = rest.map (chunk.text ++ ·) ∧ w'' = after := by
          cases rest <;> cases asked <;> exact ⟨rfl, rfl⟩
        obtain ⟨chunks, result, brings, rfl⟩ := ih others
        exact ⟨chunk :: chunks, result, .chunk got brings, (collected_cons ..).symm⟩

end ChunkStream

/-! ### Into a response -/

namespace Response

/-- A response that goes on, with a writer that never fails. -/
structure Willing (r : Response) : Prop where
  unended : r.phase.isTerminal = false
  writer : r.writer.refuses = fun _ _ => none

/-- The chunks for which something is written. -/
def filled (chunks : List Chunk) : List Chunk := chunks.filter (!·.isEmpty)

theorem filled_cons (chunk : Chunk) (chunks : List Chunk) :
    filled (chunk :: chunks) = filled [chunk] ++ filled chunks :=
  List.filter_append (p := _) [chunk] chunks

variable {r : Response} (willing : r.Willing) (now : Nat)

include willing

/-- A writer that never fails takes every buffer. -/
theorem Willing.write (text : String) : ∃ writer, r.writer.write text = (.ok (), writer) ∧
    writer.refuses = r.writer.refuses := by
  refine ⟨{ r.writer with calls := r.writer.calls ++ [.ready, .send text, .flush] }, ?_, rfl⟩
  simp [Writer.write, Writer.callAll, Writer.call, willing.writer]

/-- A chunk is written if there is something to write, and the response goes on. -/
theorem Willing.accept (chunk : Chunk) : ∃ r', r.accept (.ok chunk) now = (.ok (), r') ∧ r'.Willing ∧
    r.Steps (filled [chunk]) r' := by
  have sent : ∃ r', r.send chunk now = (.ok (), r') ∧ r'.Willing := by
    rw [send, willing.unended, if_neg Bool.false_ne_true]
    split
    · exact ⟨r, rfl, willing⟩
    · obtain ⟨writer, done, same⟩ := willing.write chunk.text
      rw [done]
      refine ⟨_, rfl, wrote_unended willing.unended, ?_⟩
      rw [wrote_writer]
      exact same.trans willing.writer
  obtain ⟨r', sent, onward⟩ := sent
  have taken : r.accept (.ok chunk) now = (.ok (), r') := by simp only [Response.accept, sent]
  have steps := accept_steps_of_ok taken
  have same : ((Except.ok chunk : Item).toOption.toList.flatMap (written? · (.ok ()))) =
      filled [chunk] := by
    cases isEmpty : chunk.isEmpty <;>
      simp [Except.toOption, written?, filled, isEmpty, Except.isOk, Except.toBool]
  exact ⟨r', taken, onward, same ▸ steps⟩

/-- A response that is flushed ends as it should. -/
theorem Willing.complete : ∃ r', r.complete now = (.ok (), r') ∧ r.Steps [] r' ∧
    r'.phase = .completion := by
  have steps := r.complete_steps now
  have flushed : r.writer.call .flush = (.ok (), (r.writer.call .flush).2) := by
    simp [Writer.call, willing.writer]
  rw [Response.complete, flushed] at steps ⊢
  exact ⟨_, rfl, steps, rfl⟩

omit willing

/-- An error ends the response, and nothing is written for it. -/
theorem accept_error (r : Response) (error : RenderError) : ∃ r',
    r.accept (.error error) now = (.error (.render error), r') ∧ r.Steps [] r' ∧
      r'.phase = .ending (.error error) := by
  have refused : r.accept (.error error) now = (.error (.render error), { r with
      phase := .error (StreamError.render error).message }) := rfl
  exact ⟨_, refused, accept_steps_of_error refused, rfl⟩

end Response

namespace ChunkStream

variable {σ : Type} {s : ChunkStream σ} {turns : Nat} {state : σ} {w after : EventLoop}
  {chunks : List Chunk} {result : Except RenderError Unit} {r : Response}

/-- A patient response gets the chunks that the stream brings, and ends as the stream does. -/
theorem BringsBy.respond {enough limit most : Nat}
    (brings : s.BringsBy turns enough state w chunks result after) (willing : r.Willing)
    (patient : enough ≤ limit) (more : chunks.length < most) : ∃ r',
      s.respond turns limit most r state w =
        (.ok (.finished (result.mapError .render), r'), after) ∧
      r.Steps (Response.filled chunks) r' ∧ r'.phase = .ending result := by
  induction brings generalizing r most with
  | @ended state last w after got =>
    -- The number of rounds is enough for the chunks and the end.
    obtain ⟨most, rfl⟩ := Nat.exists_eq_succ_of_ne_zero (Nat.ne_of_gt more)
    obtain ⟨r', done, steps, phase⟩ := willing.complete after.now
    rw [ChunkStream.respond, got limit patient]
    dsimp only
    rw [done]
    exact ⟨r', rfl, steps, phase⟩
  | @failed state last w after error got =>
    obtain ⟨most, rfl⟩ := Nat.exists_eq_succ_of_ne_zero (Nat.ne_of_gt more)
    obtain ⟨r', refused, steps, phase⟩ := r.accept_error after.now error
    rw [ChunkStream.respond, got limit patient]
    dsimp only
    rw [refused]
    exact ⟨r', rfl, steps, phase⟩
  | @chunk state next w w' after chunk chunks result got _ ih =>
    obtain ⟨r₁, taken, onward, steps⟩ := willing.accept w'.now chunk
    obtain ⟨most, rfl⟩ := Nat.exists_eq_succ_of_ne_zero (Nat.ne_of_gt (Nat.zero_lt_of_lt more))
    obtain ⟨r', asked, later, phase⟩ := ih onward (Nat.lt_of_succ_lt_succ more)
    rw [ChunkStream.respond, got limit patient]
    dsimp only
    rw [taken]
    refine ⟨r', asked, ?_, phase⟩
    rw [Response.filled_cons]
    exact steps.trans later

/-- What a response gets is what the stream brings. -/
theorem brings_of_respond (willing : r.Willing) {limit most : Nat} {sent : Except StreamError Unit}
    {r' : Response}
    (asked : s.respond turns limit most r state w = (.ok (.finished sent, r'), after)) :
    ∃ chunks result, s.Brings turns state w chunks result after ∧ sent = result.mapError .render ∧
      r.Steps (Response.filled chunks) r' ∧ r'.phase = .ending result := by
  -- By induction on the items that may still be sent; a willing response takes every chunk.
  induction most generalizing state w r with
  | zero => cases asked
  | succ most ih =>
    rw [ChunkStream.respond] at asked
    split at asked <;> rename_i got
    · cases asked
    · cases asked
    · obtain ⟨r₁, done, steps, phase⟩ := willing.complete (EventLoop.now (by assumption))
      rw [done] at asked
      cases asked
      exact ⟨_, _, .ended got, rfl, steps, phase⟩
    · rename_i item next w'
      cases item with
      | error error =>
        obtain ⟨r₁, refused, steps, phase⟩ := r.accept_error w'.now error
        rw [refused] at asked
        cases asked
        exact ⟨_, _, .failed got, rfl, steps, phase⟩
      | ok chunk =>
        obtain ⟨r₁, taken, onward, steps⟩ := willing.accept w'.now chunk
        rw [taken] at asked
        obtain ⟨chunks, result, brings, same, later, phase⟩ := ih onward asked
        refine ⟨chunk :: chunks, result, .chunk got brings, same, ?_, phase⟩
        rw [Response.filled_cons]
        exact steps.trans later

end ChunkStream

end ProgressiveHtml
