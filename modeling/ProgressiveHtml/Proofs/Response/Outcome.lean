import ProgressiveHtml.Reader
import ProgressiveHtml.Proofs.Response.Books
import ProgressiveHtml.Proofs.Response.Ended

namespace ProgressiveHtml

/-!
# Responses — what is recorded of a stream's outcome

A stream that is written into a response ends because one of its items is refused, or because it is at
its end and the response is flushed and completed.  The phase records every refused item as it is
reported, and so it records the completion.  Only a flush that is refused at the very end is reported and
not recorded: the response has not ended then, and takes chunks as before.

* `ChunkStream.Hands` — the items that a stream hands over, and when it ends;
* `Response.takeAll`, `Response.forward?` — items written one after the other, each at its own time;
* `Response.sendAll_eq_forward?`, `ChunkStream.forward?_of_respond` — whatever writes a stream into a
  response comes to that;
* `Response.Flushes` — the writer does not refuse the flush at the end;
* `Response.outcome_recorded_iff` — the outcome is recorded exactly if the flush at the end goes through.
-/

namespace ChunkStream

variable {σ : Type}

/-- The items that a stream hands over one after the other, with their times, and when it ends: `none` as
    long as it has not been asked for its end. -/
inductive Hands (s : ChunkStream σ) (turns limit : Nat) :
    σ → EventLoop → List (Nat × Item) → Option Nat → Prop
  /-- The stream is not asked for more. -/
  | unread (state : σ) (w : EventLoop) : Hands s turns limit state w [] none
  /-- The stream ends. -/
  | ended {state last : σ} {w w' : EventLoop}
      (got : s.next turns limit state w = (.ready none last, w')) :
      Hands s turns limit state w [] (some w'.now)
  /-- An item comes, and others after it. -/
  | item {state next : σ} {w w' : EventLoop} {item : Item} {items : List (Nat × Item)}
      {ending? : Option Nat} (got : s.next turns limit state w = (.ready (some item) next, w'))
      (rest : Hands s turns limit next w' items ending?) :
      Hands s turns limit state w ((w'.now, item) :: items) ending?

end ChunkStream

namespace Response

/-! ### Items with their times -/

/-- Write items into a response, each at its own time, up to the first that is refused. -/
def takeAll (r : Response) : List (Nat × Item) → Except StreamError Unit × Response
  | [] => (.ok (), r)
  | (now, item) :: rest =>
    match r.accept item now with
    | (.ok (), r) => takeAll r rest
    | (.error error, r) => (.error error, r)

/-- Write the items of a stream into a response and complete it when the stream ends: the outcome and the
    response, once there is an outcome. -/
def forward? (r : Response) (items : List (Nat × Item)) (ending? : Option Nat) :
    Option (Except StreamError Unit × Response) :=
  match r.takeAll items with
  | (.ok (), r) => ending?.map r.complete
  | (.error error, r) => some (.error error, r)

/-- If all items are taken, then the flush after them is not refused. -/
def Flushes (r : Response) (items : List (Nat × Item)) : Prop :=
  ∀ r', r.takeAll items = (.ok (), r') → r'.writer.refuses r'.writer.calls .flush = none

/-- The phase of a response records an outcome: the completion, with its mark, or the reported error. -/
def Records (r : Response) (ending? : Option Nat) : Except StreamError Unit → Prop
  | .ok () => r.phase = .completion ∧ ending?.isSome ∧ r.timing.at? Timing.completeMark = ending?
  | .error error => r.phase = .error error.message

variable {r r' : Response} {now : Nat} {items : List (Nat × Item)} {ending? : Option Nat}
  {result : Except StreamError Unit} {error : StreamError}

theorem sendAll_eq_forward? (r : Response) (now : Nat) (items : List Item) :
    r.forward? (items.map (now, ·)) (some now) = some (r.sendAll now items).1 := by
  induction items generalizing r with
  | nil => rfl
  | cons item rest ih =>
    rw [List.map_cons, forward?, takeAll, sendAll]
    rcases r.accept item now with ⟨error | _, r'⟩
    · rfl
    · exact ih r'

/-- An item that is taken neither finds the response ended nor ends it. -/
theorem unended_of_accept {item : Item} (taken : r.accept item now = (.ok (), r')) :
    r.phase.isTerminal = false ∧ r'.phase.isTerminal = false := by
  unfold accept at taken
  cases item with
  | error reason => simp at taken
  | ok chunk =>
    rcases sent : r.send chunk now with ⟨_ | _, after⟩ <;> simp only [sent] at taken
    · cases taken
    obtain rfl : after = r' := congrArg Prod.snd taken
    unfold send at sent
    split at sent
    · cases sent
    rename_i unended
    have unended : r.phase.isTerminal = false := by simpa using unended
    refine ⟨unended, ?_⟩
    split at sent
    · cases sent
      exact unended
    · split at sent
      · cases sent
      · cases sent
        exact wrote_unended unended

/-- An item that is refused is recorded as it is reported. -/
theorem phase_of_accept {item : Item} (refused : r.accept item now = (.error error, r')) :
    r'.phase = .error error.message := by
  unfold accept at refused
  dsimp only at refused
  split at refused <;> cases refused
  rfl

theorem unended_of_takeAll (unended : r.phase.isTerminal = false)
    (taken : r.takeAll items = (.ok (), r')) : r'.phase.isTerminal = false := by
  induction items generalizing r with
  | nil =>
    cases taken
    exact unended
  | cons item rest ih =>
    rw [takeAll] at taken
    split at taken
    · rename_i accepted
      exact ih (unended_of_accept accepted).2 taken
    · cases taken

theorem phase_of_takeAll (refused : r.takeAll items = (.error error, r')) :
    r'.phase = .error error.message := by
  induction items generalizing r with
  | nil => cases refused
  | cons item rest ih =>
    rw [takeAll] at refused
    split at refused
    · exact ih refused
    · rename_i accepted
      cases refused
      exact phase_of_accept accepted

/-- A flush that is not refused completes the response. -/
theorem complete_of_taken (now : Nat) (taken : r.writer.refuses r.writer.calls .flush = none) :
    (r.complete now).1 = .ok () ∧ (r.complete now).2.phase = .completion ∧
      (r.complete now).2.timing.at? Timing.completeMark = some now := by
  simp [complete, Writer.call, taken]

/-- A flush that is refused is reported, and leaves everything but the writer as it was. -/
theorem complete_of_refused {message : String}
    (refused : r.writer.refuses r.writer.calls .flush = some message) :
    r.complete now = (.error (.sink message),
      { r with writer := { r.writer with calls := r.writer.calls ++ [.flush] } }) := by
  simp [complete, Writer.call, refused]

/-! ### The outcome -/

/-- What is recorded of the outcome of writing a stream into a response. -/
structure Reported (r : Response) (items : List (Nat × Item)) (ending? : Option Nat)
    (result : Except StreamError Unit) (after : Response) : Prop where
  /-- The outcome is recorded exactly if the flush at the end goes through. -/
  recorded : after.Records ending? result ↔ r.Flushes items
  /-- The response has ended exactly if the flush at the end goes through. -/
  ended : after.phase.isTerminal ↔ r.Flushes items
  /-- Then every chunk is refused from there on, whatever is done in between. -/
  closed : r.Flushes items → ∀ operations chunk now,
    ((after.performed operations).send chunk now).1 = .error .completed
  /-- Otherwise the response is reported to have failed and is as it was before the flush. -/
  unrecorded : ∀ r' message, r.takeAll items = (.ok (), r') →
    r'.writer.refuses r'.writer.calls .flush = some message →
      result = .error (.sink message) ∧
        after = { r' with writer := { r'.writer with calls := r'.writer.calls ++ [.flush] } }

/-- An outcome that is recorded ends a response for good. -/
theorem closed_of_ended (ended : r.phase.isTerminal) (operations : List (Nat × Operation))
    (chunk : Chunk) (now : Nat) :
    ((r.performed operations).send chunk now).1 = .error .completed := by
  rw [send_of_ended ((performed_steps operations r).sealed ended).ended]

theorem reported_of_forward? (unended : r.phase.isTerminal = false)
    (forwarded : r.forward? items ending? = some (result, r')) :
    r.Reported items ending? result r' := by
  unfold forward? at forwarded
  split at forwarded
  · rename_i before taken
    obtain ⟨ending, rfl, done⟩ := Option.map_eq_some_iff.1 forwarded
    cases refused : before.writer.refuses before.writer.calls .flush with
    | none =>
      -- The stream is at its end, and the response is completed.
      have flushes : r.Flushes items := fun other same => by
        cases taken.symm.trans same
        exact refused
      obtain ⟨isOk, phase, mark⟩ := complete_of_taken ending refused
      rw [done] at isOk phase mark
      dsimp only at isOk phase mark
      subst isOk
      have ended : r'.phase.isTerminal := by rw [phase]; rfl
      exact ⟨iff_of_true ⟨phase, rfl, mark⟩ flushes, iff_of_true ended flushes,
        fun _ => closed_of_ended ended, fun other message same isRefused => by
          rw [flushes other same] at isRefused
          cases isRefused⟩
    | some message =>
      have unflushed : ¬ r.Flushes items := fun flushes => by
        rw [flushes before taken] at refused
        cases refused
      rw [complete_of_refused refused] at done
      cases done
      have unended' : before.phase.isTerminal = false := unended_of_takeAll unended taken
      refine ⟨iff_of_false (fun recorded => ?_) unflushed, iff_of_false (by simp [unended']) unflushed,
        fun flushes => absurd flushes unflushed, fun other message' same isRefused => ?_⟩
      · have phase : before.phase = .error (StreamError.sink message).message := recorded
        rw [phase] at unended'
        cases unended'
      · cases taken.symm.trans same
        cases refused.symm.trans isRefused
        exact ⟨rfl, rfl⟩
  · rename_i error after taken
    cases forwarded
    have flushes : r.Flushes items := fun other same => by cases taken.symm.trans same
    have phase := phase_of_takeAll taken
    have ended : r'.phase.isTerminal := by rw [phase]; rfl
    exact ⟨iff_of_true phase flushes, iff_of_true ended flushes, fun _ => closed_of_ended ended,
      fun other message same _ => by cases taken.symm.trans same⟩

end Response

namespace ChunkStream

variable {σ : Type} {s : ChunkStream σ} {turns limit most : Nat} {state : σ} {w after : EventLoop}
  {r r' : Response} {result : Except StreamError Unit}

/-- To write a stream into a response is to write the items that it hands over. -/
theorem forward?_of_respond
    (responded : s.respond turns limit most r state w = (.ok (.finished result, r'), after)) :
    ∃ items ending?, s.Hands turns limit state w items ending? ∧
      r.forward? items ending? = some (result, r') := by
  induction most generalizing state w r with
  | zero => cases responded
  | succ most ih =>
    rw [respond] at responded
    split at responded <;> rename_i got
    · cases responded
    · cases responded
    · refine ⟨_, _, .ended got, ?_⟩
      cases responded
      rfl
    · rename_i item next w'
      rcases taken : r.accept item w'.now with ⟨error | _, r₁⟩ <;> rw [taken] at responded
      · cases responded
        refine ⟨_, _, .item got (.unread next _), ?_⟩
        simp [Response.forward?, Response.takeAll, taken]
      · obtain ⟨items, ending?, hands, forwarded⟩ := ih responded
        refine ⟨_, _, .item got hands, ?_⟩
        rw [Response.forward?, Response.takeAll, taken]
        exact forwarded

end ChunkStream

namespace Response

/-- Whatever stream of chunks and errors is written into a response that has not ended, and whichever
    calls its writer refuses: the phase records the outcome as it is reported, the response has ended and
    takes no chunk any more, unless all items are taken and then the flush at the end is refused.  In that
    case the error is reported, but the response is as it was before the flush. -/
theorem outcome_recorded_iff {r : Response} (unended : r.phase.isTerminal = false) :
    (∀ now items, r.Reported (items.map (now, ·)) (some now) (r.sendAll now items).1.1
        (r.sendAll now items).1.2) ∧
      ∀ (σ : Type) (s : ChunkStream σ) turns limit most state w result r' after,
        s.respond turns limit most r state w = (.ok (.finished result, r'), after) →
        ∃ items ending?, s.Hands turns limit state w items ending? ∧
          r.Reported items ending? result r' := by
  constructor
  · intro now items
    exact reported_of_forward? unended (r.sendAll_eq_forward? now items)
  · intro σ s turns limit most state w result r' after responded
    obtain ⟨items, ending?, hands, forwarded⟩ := ChunkStream.forward?_of_respond responded
    exact ⟨items, ending?, hands, reported_of_forward? unended forwarded⟩

/-- A writer that refuses the buffer of the second chunk: the error is recorded as it is reported, and
    every later chunk is refused. -/
theorem outcome_recorded_of_refused_chunk :
    let r : Response := { writer := ({ send := some ⟨2, "gone"⟩ } : FaultPlan).writer }
    let items : List Item := [.ok (.literal "a"), .ok (.patch "slot-0" "b"), .error .consumed]
    let sent := (r.sendAll 7 items).1
    r.phase.isTerminal = false ∧ sent.1 = .error (.sink "gone") ∧
      r.Reported (items.map (7, ·)) (some 7) sent.1 sent.2 ∧
      sent.2.phase = .error "Sink error: gone" ∧
      ∀ operations chunk now, ((sent.2.performed operations).send chunk now).1 = .error .completed := by
  intro r items sent
  have failed : sent.1 = .error (.sink "gone") := by decide +kernel
  have phase : sent.2.phase = .error "Sink error: gone" := by decide +kernel
  have reported := (outcome_recorded_iff (r := r) rfl).1 7 items
  have recorded : sent.2.Records (some 7) sent.1 := by
    rw [failed]
    exact phase
  exact ⟨rfl, failed, reported, phase, reported.closed (reported.recorded.1 recorded)⟩

/-- An error that is reported and not recorded: the flush at the end of an empty stream is refused, and
    the response takes a chunk after that. -/
theorem unrecorded_flush :
    let r : Response := { writer := ({ flush := some ⟨1, "closed"⟩ } : FaultPlan).writer }
    let sent := (r.sendAll 0 []).1
    r.phase.isTerminal = false ∧ sent.1 = .error (.sink "closed") ∧ sent.2.phase = .start ∧
      (sent.2.send (.literal "late") 1).1 = .ok () := by
  decide +kernel

end Response

end ProgressiveHtml
