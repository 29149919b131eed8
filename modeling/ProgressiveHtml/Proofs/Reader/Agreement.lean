import ProgressiveHtml.Proofs.Reader.Bytes

namespace ProgressiveHtml

/-!
# Readers — all ways of reading agree

Read chunk by chunk, as buffers of bytes, into one text or into a response, a stream brings the same bytes,
and it ends with the same error or with none.

* `Supply.brings` — a supply brings its items up to the first error;
* `Document.brings` — a document in which all values settle comes to its end;
* `ChunkStream.bytesOf` — the bytes of several buffers;
* `ChunkStream.readers_agree` — all ways of reading agree.
-/

/-! ### What a supply brings -/

namespace Supply

/-- The chunks in front of the first error. -/
def chunksOf : List Item → List Chunk
  | .ok chunk :: rest => chunk :: chunksOf rest
  | _ => []

/-- The first error, if there is one. -/
def resultOf : List Item → Except RenderError Unit
  | [] => .ok ()
  | .ok _ :: rest => resultOf rest
  | .error error :: _ => .error error

/-- A supply that is asked on time gives its next item if the sleep before it is over, and otherwise the
    sleep ends when it would have ended. -/
theorem poll_cases {s : Supply} {t : Timeline} {sleep : Sleep} {item : Item}
    {rest : List (Sleep × Item)} (items : s.items = (sleep, item) :: rest)
    (timely : Sleep.Timely t.now [sleep]) :
    (∃ timeline, s.poll t = (.item item, { s with asked := false, items := rest }, timeline) ∧
      timeline.now = t.now ∧ sleep.endsAt t.now = t.now) ∨
      ∃ left timeline,
        s.poll t = (.waiting, { s with asked := true, items := (left, item) :: rest }, timeline) ∧
        timeline.now = t.now ∧ Sleep.Running (t.now + 1) [left] ∧
        left.endsAt t.now = sleep.endsAt t.now := by
  have same := s.poll_now t
  have asked := Sleep.pollAll_cases (t := s.ask t) (by rwa [s.ask_now])
  rw [s.ask_now] at asked
  rcases slept : sleep.poll (s.ask t) with ⟨_ | left, timeline⟩ <;>
    simp only [Sleep.pollAll, slept] at asked <;> simp only [poll, items, slept] at same ⊢
  · obtain ⟨-, isOver⟩ | ⟨running, -⟩ := asked
    · exact .inl ⟨timeline, rfl, same, isOver⟩
    · cases running
  · obtain ⟨none, -⟩ | running := asked
    · cases none
    · exact .inr ⟨left, timeline, rfl, same, running⟩

variable {w : EventLoop} (turns : Nat)

/-- With no fragment on its way, the next item of a supply comes when the delay before it has passed. -/
theorem next_item (alone : w.Alone) {s : Supply} {delay : Nat} {item : Item}
    {rest : List (Sleep × Item)} (items : s.items = (.idle delay, item) :: rest) : ∃ after,
    toChunkStream.next turns (w.now + delay) s w =
      (.ready (some item) { s with asked := false, items := rest }, after) ∧ after.Alone := by
  let P (q : Supply) (v : EventLoop) : Prop := v.Alone ∧ ∃ sleep asked,
    q = { s with asked, items := (sleep, item) :: rest } ∧ Sleep.Timely v.now [sleep] ∧
      sleep.endsAt v.now = w.now + delay
  have start : P s w := ⟨alone, .idle delay, s.asked, by rw [← items], .idle [delay], rfl⟩
  have onTime {q : Supply} {v : EventLoop} (kept : P q v) : v.now ≤ w.now + delay := by
    obtain ⟨-, sleep, asked, -, timely, ends⟩ := kept
    exact timely.le_overAll.trans_eq ends
  -- While the delay has not passed, the stream waits for the end of the sleep.
  have waits {q : Supply} {v : EventLoop} (kept : P q v) (early : v.now < w.now + delay) :
      ∃ q' v', toChunkStream.poll q v = (.pending q', v') ∧ v'.Alone ∧ v'.now = v.now ∧
        ∀ later, (∀ alarm ∈ toChunkStream.alarms q', v.now < alarm.deadline →
          later ≤ alarm.deadline) → P q' { v' with timeline := { v'.timeline with now := later } } := by
    obtain ⟨alone, sleep, asked, rfl, timely, ends⟩ := kept
    obtain ⟨-, -, -, isOver⟩ | ⟨left, timeline, polled, now, running, same⟩ :=
      poll_cases (s := { s with asked, items := (sleep, item) :: rest }) rfl timely
    · exact absurd (isOver.symm.trans ends) (Nat.ne_of_lt early)
    · refine ⟨_, { v with timeline }, by simp only [toChunkStream, polled], alone.congr rfl, now,
        fun later stops => ⟨alone.congr rfl, left, true, rfl, .running ?_, ?_⟩⟩
      · exact running.pass fun alarm isRunning => stops alarm (Option.mem_toList.2 isRunning)
      · exact ((running.overAll_eq later).1.trans (running.overAll_eq v.now).1.symm).trans
          (same.trans ends)
  obtain ⟨last, before, left, ⟨alone, sleep, asked, rfl, timely, ends⟩, isDue, same⟩ :=
    EventLoop.wait_reaches (P := P) toChunkStream.toAwaitable turns (Nat.le_refl _) onTime waits start
  obtain ⟨timeline, polled, -, -⟩ | ⟨left, timeline, polled, -, running, still⟩ :=
    poll_cases (s := { s with asked, items := (sleep, item) :: rest }) rfl timely
  · refine ⟨{ before with timeline }, ?_, alone.congr rfl⟩
    rw [ChunkStream.next, same, EventLoop.waitRounds]
    simp only [toChunkStream, polled]
  · have later : before.now + 1 ≤ w.now + delay := (running.overAll_eq before.now).2.trans_eq
      ((running.overAll_eq before.now).1.symm.trans (still.trans ends))
    omega

/-- With no fragment on its way, a supply brings the chunks in front of the first error, and then ends
    with this error, or without one if there is none. -/
theorem brings (alone : w.Alone) (name : String) (items : List (Nat × Item)) : ∃ after,
    toChunkStream.Brings turns (.ofList name items false) w (chunksOf (items.map (·.2)))
      (resultOf (items.map (·.2))) after := by
  -- Whether the supply has been asked before does not matter.
  suffices asked : ∀ asked, ∃ after, toChunkStream.Brings turns { ofList name items false with asked } w
      (chunksOf (items.map (·.2))) (resultOf (items.map (·.2))) after from asked false
  induction items generalizing w with
  | nil =>
    intro asked
    exact ⟨_, .ended (show toChunkStream.next turns w.now _ w = _ from rfl)⟩
  | cons entry rest ih =>
    obtain ⟨delay, item⟩ := entry
    intro asked
    have items : ({ ofList name ((delay, item) :: rest) false with asked } : Supply).items =
        (.idle delay, item) :: rest.map fun entry => (.idle entry.1, entry.2) := rfl
    obtain ⟨next, got, alone⟩ := next_item turns alone items
    cases item with
    | error error => exact ⟨_, .failed got⟩
    | ok chunk =>
      obtain ⟨after, brings⟩ := ih alone false
      exact ⟨after, .chunk got brings⟩

end Supply

/-- A document in which all values settle brings its chunks and ends, unless something panics. -/
theorem Document.brings {settings : Settings} {body : Node} (settles : Settles settings body)
    {w : EventLoop} (unused : w.registry = {}) : ∃ enough, ∀ turns, enough ≤ turns →
      (∃ chunks result after, toChunkStream.Brings turns (start settings body w).1
        (start settings body w).2 chunks result after) ∨
      ∃ patience most message after, toChunkStream.readWithin turns patience most {}
        (start settings body w).1 (start settings body w).2 = (.error message, after) := by
  obtain ⟨enough, ends⟩ := exists_enough settles unused
  refine ⟨enough, fun turns many => ?_⟩
  have goesOn := ends turns enough enough many (Nat.le_refl _) (Nat.le_refl _) []
  rcases read : toChunkStream.readWithin turns enough enough {} (start settings body w).1
    (start settings body w).2 with ⟨message | ⟨arrivals, ending⟩, after⟩
  · exact .inr ⟨enough, enough, message, after, read⟩
  · cases ending with
    | done => exact .inl ⟨_, _, after, ChunkStream.brings_of_read read rfl⟩
    | failed time error left => exact .inl ⟨_, _, after, ChunkStream.brings_of_read read rfl⟩
    | stalled => exact absurd read (goesOn arrivals after)
    | dropped => exact absurd read ChunkStream.not_dropped

/-! ### All readers -/

namespace ChunkStream

/-- The bytes of buffers, one after the other. -/
def bytesOf : List ByteArray → ByteArray
  | [] => .empty
  | buffer :: rest => buffer ++ bytesOf rest

/-- Texts have the same bytes one by one as they have together. -/
theorem bytesOf_texts (texts : List String) :
    bytesOf (texts.map String.toUTF8) = (String.join texts).toUTF8 := by
  induction texts with
  | nil => rfl
  | cons text rest ih => rw [List.map_cons, bytesOf, ih, String.join_cons]; simp

/-- The buffers of chunks have the bytes of their text. -/
theorem bytesOf_buffers {buffers : List Buffer} {chunks : List Chunk}
    (same : buffers.map (·.bytes) = chunks.map (·.text.toUTF8)) :
    bytesOf (buffers.map (·.bytes)) = (textOf chunks).toUTF8 := by
  rw [same, textOf, ← bytesOf_texts, List.map_map]
  rfl

/-- Chunks without text add nothing to the text. -/
theorem textOf_filled (chunks : List Chunk) : textOf (Response.filled chunks) = textOf chunks := by
  induction chunks with
  | nil => rfl
  | cons chunk rest ih =>
    unfold textOf Response.filled at *
    cases isEmpty : chunk.isEmpty with
    | true =>
      have none : chunk.text = "" := String.isEmpty_iff.1 isEmpty
      simp [isEmpty, none, ih, String.join_cons]
    | false => simp [isEmpty, ih, String.join_cons]

/-- A response with which nothing was done, and a writer that never fails. -/
def fresh : Response := { writer := { refuses := fun _ _ => none } }

theorem fresh_willing : fresh.Willing := ⟨rfl, rfl⟩

/-- What was written into a fresh response has the bytes of the chunks. -/
theorem bytesOf_delivered {chunks : List Chunk} {r : Response}
    (steps : fresh.Steps (Response.filled chunks) r) :
    bytesOf (r.writer.delivered.map String.toUTF8) = (textOf chunks).toUTF8 := by
  have books := steps.books_after (Response.books_fresh _)
  rw [books.delivered, List.nil_append, bytesOf_texts, ← textOf_filled chunks]
  rfl

/-- All ways of reading a stream agree: a patient reader gets what the stream brings, chunk by chunk, as
    buffers of bytes, as one text or into a response, and a reader that comes to an end got nothing else.
    So the bytes are the same up to the first error, and the last three report this error in the same way,
    as that of a response.  All streams are steady: those of templates, those of
    documents, and supplies, which bring whatever items they are made of; and a document in which all
    values settle brings its chunks and ends, unless something panics. -/
theorem readers_agree :
    (∀ {σ : Type} {s : ChunkStream σ}, s.Steady → ∀ (turns : Nat) (state : σ) (w : EventLoop),
      (∀ {chunks result after}, s.Brings turns state w chunks result after →
        (∀ {chunks' result' after'}, s.Brings turns state w chunks' result' after' →
          chunks = chunks' ∧ result = result' ∧ after = after') ∧
        ∃ enough, ∀ patience limit most, enough ≤ patience → enough ≤ limit → chunks.length < most →
          ∃ arrivals ending buffers response,
            s.readWithin turns patience most {} state w = (.ok (arrivals, ending), after) ∧
            arrivals.map (·.chunk) = chunks ∧ ending.result? = some result ∧
            s.readBuffers turns patience most state w =
              (.ok (buffers, .finished (result.mapError .render)), after) ∧
            bytesOf (buffers.map (·.bytes)) = (textOf chunks).toUTF8 ∧
            s.collect turns limit most state w = (.ok (some (collected chunks result)), after) ∧
            s.respond turns limit most fresh state w =
              (.ok (.finished (result.mapError .render), response), after) ∧
            response.phase = .ending result ∧
            bytesOf (response.writer.delivered.map String.toUTF8) = (textOf chunks).toUTF8) ∧
      (∀ {patience most arrivals ending after result},
        s.readWithin turns patience most {} state w = (.ok (arrivals, ending), after) →
        ending.result? = some result →
        s.Brings turns state w (arrivals.map (·.chunk)) result after) ∧
      (∀ {patience most buffers sent after},
        s.readBuffers turns patience most state w = (.ok (buffers, .finished sent), after) →
        ∃ chunks result, s.Brings turns state w chunks result after ∧
          sent = result.mapError .render ∧
          bytesOf (buffers.map (·.bytes)) = (textOf chunks).toUTF8) ∧
      (∀ {limit most read after}, s.collect turns limit most state w = (.ok (some read), after) →
        ∃ chunks result, s.Brings turns state w chunks result after ∧
          read = collected chunks result) ∧
      ∀ {limit most sent response after},
        s.respond turns limit most fresh state w = (.ok (.finished sent, response), after) →
        ∃ chunks result, s.Brings turns state w chunks result after ∧
          sent = result.mapError .render ∧ response.phase = .ending result ∧
          bytesOf (response.writer.delivered.map String.toUTF8) = (textOf chunks).toUTF8) ∧
    (TemplateStream.toChunkStream.Steady ∧ Document.toChunkStream.Steady ∧
      Supply.toChunkStream.Steady) ∧
    (∀ (turns : Nat) {w : EventLoop}, w.Alone → ∀ (name : String) (items : List (Nat × Item)),
      ∃ after, Supply.toChunkStream.Brings turns (.ofList name items false) w
        (Supply.chunksOf (items.map (·.2))) (Supply.resultOf (items.map (·.2))) after) ∧
    ∀ {settings : Settings} {body : Node}, Document.Settles settings body →
      ∀ {w : EventLoop}, w.registry = {} → ∃ enough, ∀ turns, enough ≤ turns →
        (∃ chunks result after, Document.toChunkStream.Brings turns
          (Document.start settings body w).1 (Document.start settings body w).2 chunks result after) ∨
        ∃ patience most message after, Document.toChunkStream.readWithin turns patience most {}
          (Document.start settings body w).1 (Document.start settings body w).2 =
            (.error message, after) := by
  refine ⟨fun {σ s} steady turns state w => ⟨fun {chunks result after} brings =>
    ⟨brings.unique steady, ?_⟩, brings_of_read, ?_, brings_of_collect, ?_⟩,
    ⟨TemplateStream.steady, Document.steady, Supply.steady⟩,
    fun turns _ alone => Supply.brings turns alone, Document.brings⟩
  · -- With the patience that the stream takes for each of its chunks, all readers come to its end.
    obtain ⟨enough, brings⟩ := brings.patiently steady
    refine ⟨enough, fun patience limit most patient late more => ?_⟩
    obtain ⟨arrivals, ending, read, same, ends⟩ := brings.read patient more
    obtain ⟨buffers, asBytes, sameBytes⟩ := brings.readBuffers patient more
    obtain ⟨response, responded, steps, phase⟩ := brings.respond fresh_willing late more
    exact ⟨arrivals, ending, buffers, response, read, same, ends, asBytes, bytesOf_buffers sameBytes,
      brings.collect late more, responded, phase, bytesOf_delivered steps⟩
  · intro patience most buffers sent after read
    obtain ⟨chunks, result, brings, same, sameBytes⟩ := brings_of_readBuffers read
    exact ⟨chunks, result, brings, same, bytesOf_buffers sameBytes⟩
  · intro limit most sent response after asked
    obtain ⟨chunks, result, brings, same, steps, phase⟩ := brings_of_respond fresh_willing asked
    exact ⟨chunks, result, brings, same, phase, bytesOf_delivered steps⟩

/-- A supply that fails after two chunks, one of them without text: all readers get the text of the
    first chunk, and the error. -/
theorem readers_agree_up_to_error :
    let supply := Supply.ofList "chunks" [(0, .ok (.content "text")), (5, .ok (.literal "")),
      (3, .error (.failed "down")), (1, .ok (.literal "lost"))] false
    ∃ enough arrivals ending buffers response after,
      Supply.toChunkStream.readWithin 0 enough 3 {} supply {} = (.ok (arrivals, ending), after) ∧
      arrivals.map (·.chunk) = [.content "text", .literal ""] ∧
      Supply.toChunkStream.readBuffers 0 enough 3 supply {} =
        (.ok (buffers, .finished (.error (.render (.failed "down")))), after) ∧
      bytesOf (buffers.map (·.bytes)) = "text".toUTF8 ∧
      Supply.toChunkStream.collect 0 enough 3 supply {} =
        (.ok (some (.error (.render (.failed "down")))), after) ∧
      Supply.toChunkStream.respond 0 enough 3 fresh supply {} =
        (.ok (.finished (.error (.render (.failed "down"))), response), after) ∧
      response.phase = .error "Render error: Render failed: down" ∧
      bytesOf (response.writer.delivered.map String.toUTF8) = "text".toUTF8 := by
  intro supply
  obtain ⟨agree, ⟨-, -, steady⟩, supplies, -⟩ := readers_agree
  have alone : EventLoop.Alone {} := ⟨rfl, rfl⟩
  obtain ⟨after, brings⟩ := supplies 0 alone "chunks" [(0, .ok (.content "text")),
    (5, .ok (.literal "")), (3, .error (.failed "down")), (1, .ok (.literal "lost"))]
  obtain ⟨-, enough, gets⟩ := (agree steady 0 supply {}).1 brings
  obtain ⟨arrivals, ending, buffers, response, read, same, -, asBytes, bytes, collect, respond, phase,
    delivered⟩ := gets enough enough 3 (Nat.le_refl _) (Nat.le_refl _) (by decide)
  exact ⟨enough, arrivals, ending, buffers, response, after, read, same, asBytes, bytes, collect, respond,
    phase, delivered⟩

end ChunkStream

end ProgressiveHtml
