import ProgressiveHtml.Proofs.Reader.Run
import ProgressiveHtml.Proofs.Registry.Accounting
import ProgressiveHtml.Proofs.Rendering.Deadlines
import ProgressiveHtml.Proofs.Rendering.Deeds
import ProgressiveHtml.Proofs.Template.Asking

namespace ProgressiveHtml

/-!
# Template streams — one move at a time

A template stream that is asked for a chunk first lets the renderings in its slots go on and then
walks over the pieces that are there.  `TemplateStream.Move` names what can happen to the pieces on
the way, one thing at a time, as long as no error comes.

* `Chunk.literals`, `Chunk.contents` — what is written for a text;
* `TemplateStream.Move`, `TemplateStream.Moves` — one move and several, with what can be seen of them;
* `TemplateStream.poll_moves` — asking a stream for a chunk is a sequence of moves.
-/

namespace Chunk

/-- What is written for text of the pattern: nothing when it is empty. -/
def literals (text : String) : List Chunk := if text.isEmpty then [] else [.literal text]

/-- What is written for the content of a slot: nothing when it is empty. -/
def contents (text : String) : List Chunk := if text.isEmpty then [] else [.content text]

end Chunk

namespace History

/-- The reader gets the given chunks. -/
def writes (chunks : List Chunk) : List Happening := reads (chunks.map .ok)

variable (written : List Chunk)

@[simp] theorem writes_nil : writes [] = [] := rfl

@[simp] theorem slots_writes : slots (writes written) = [] := slots_reads _
@[simp] theorem accepted_writes : accepted (writes written) = [] := accepted_reads _
@[simp] theorem completions_writes : completions (writes written) = [] := completions_reads _

@[simp] theorem chunks_writes : chunks (writes written) = written := by
  simp [chunks, writes, List.filterMap_map, Function.comp_def, Except.toOption]

end History

/-- No time passes while a registry is asked. -/
theorem EventLoop.drain_now (w : EventLoop) : w.drain.2.now = w.now := by
  unfold drain
  split
  · unfold handOut
    split <;> rfl
  · rfl

@[simp] theorem Supply.ask_now (s : Supply) (t : Timeline) : (s.ask t).now = t.now := by
  unfold ask
  split <;> rfl

/-- No time passes while a supply is asked. -/
theorem Supply.poll_now (s : Supply) (t : Timeline) : (s.poll t).2.2.now = t.now := by
  unfold poll
  split
  · exact s.ask_now t
  · rename_i sleep _ _ _
    have same := sleep.poll_now (s.ask t)
    split <;> rename_i asked <;> rw [asked] at same <;> exact same.trans (s.ask_now t)

/-- A supply only writes down that it was asked. -/
theorem Supply.journal_poll (s : Supply) (t : Timeline) :
    (s.poll t).2.2.journal = (s.ask t).journal := by
  unfold poll
  split
  · rfl
  · rename_i sleep _ _ _
    have same := sleep.journal_poll (s.ask t)
    split <;> rename_i asked <;> rw [asked] at same <;> exact same

theorem Supply.events_poll (s : Supply) (t : Timeline) :
    (s.poll t).2.2.events = (s.ask t).events := by
  rw [Timeline.events, s.journal_poll]
  rfl

namespace Sequence

/-- Asking a sequence gives out no slots. -/
theorem poll_next (s : Sequence) (w : EventLoop) :
    (s.poll w).2.2.registry.next = w.registry.next := by
  cases s with
  | supply s => rfl
  | patches =>
    show w.drain.2.registry.next = w.registry.next
    rw [w.drain_registry.2, Registry.drain]
    split
    · rfl
    · split <;> rfl

/-- Giving up a sequence gives out no slots. -/
theorem release_next (s : Sequence) (w : EventLoop) :
    (s.release w).registry.next = w.registry.next := by
  cases s <;> rfl

/-- No time passes while a sequence is asked. -/
theorem poll_now (s : Sequence) (w : EventLoop) : (s.poll w).2.2.now = w.now := by
  cases s with
  | supply s => exact s.poll_now w.timeline
  | patches => exact w.drain_now

section

variable {s s' : Sequence} {answer : Answer} {w w' : EventLoop} (asked : s.poll w = (answer, s', w'))

include asked

theorem next_of_poll : w'.registry.next = w.registry.next := by
  have same := s.poll_next w
  rwa [asked] at same

theorem now_of_poll : w'.now = w.now := by
  have same := s.poll_now w
  rwa [asked] at same

end

/-- No time passes while a sequence is given up. -/
theorem release_now (s : Sequence) (w : EventLoop) : (s.release w).now = w.now := by
  cases s <;> rfl

end Sequence

/-- Giving up a source leaves the registry as it is or shuts it, and nothing else happens. -/
theorem Source.release_eq (source : Source) (w : EventLoop) :
    source.release w = w ∨ source.release w = w.close := by
  match source with
  | .text _ | .rendering _ | .sequence (.supply _) => exact .inl rfl
  | .sequence .patches => exact .inr rfl

theorem Piece.release_eq (piece : Piece) (w : EventLoop) :
    piece.release w = w ∨ piece.release w = w.close := by
  match piece with
  | .segment _ | .slot none => exact .inl rfl
  | .slot (some source) => exact source.release_eq w

/-- Giving up several things leaves the registry as it is or shuts it, if each of them does. -/
theorem EventLoop.foldl_release {α : Type} {release : EventLoop → α → EventLoop}
    (each : ∀ w a, release w a = w ∨ release w a = w.close)
    (all : List α) (w : EventLoop) : all.foldl release w = w ∨ all.foldl release w = w.close := by
  induction all generalizing w with
  | nil => exact .inl rfl
  | cons one rest ih =>
    rw [List.foldl_cons]
    obtain same | same := each w one <;> rw [same]
    · exact ih w
    · -- A registry that has been given up can be given up again.
      exact .inr ((ih w.close).elim id id)

/-- Giving up a stream leaves the registry as it is or shuts it. -/
theorem TemplateStream.release_eq (s : TemplateStream) (w : EventLoop) :
    s.release w = w ∨ s.release w = w.close :=
  EventLoop.foldl_release (fun w piece => Piece.release_eq piece w) s.pieces w

/-- Assigning a source to the first slot.  A slot without one is reported, which does not concern the
    registry. -/
theorem TemplateStream.assign_cons (name text : String) (rest : List (String × String))
    (sources : Sources) (w : EventLoop) :
    ∃ w', w'.registry = w.registry ∧
      assign ((name, text) :: rest) sources w =
        (.slot (sources.take name).1 :: .segment text :: (assign rest (sources.take name).2 w').1,
          (assign rest (sources.take name).2 w').2) := by
  rcases taken : sources.take name with ⟨_ | source, left⟩
  · exact ⟨w.note (.notice (.noSource name)), rfl, by simp [assign, taken]⟩
  · exact ⟨w, rfl, by simp [assign, taken]⟩

/-- Taking the source of a name: a text stays, anything else is gone after that. -/
theorem Sources.take_cases (sources : Sources) (name : String) :
    (∃ plain, Named.get? sources name = some (.text plain) ∧
      sources.take name = (some (.text plain), sources)) ∨
    (∃ source, (∀ plain, source ≠ .text plain) ∧ Named.get? sources name = some source ∧
      sources.take name = (some source, Named.erase sources name)) ∨
    (Named.get? sources name = none ∧ sources.take name = (none, sources)) := by
  unfold Sources.take
  cases found : Named.get? sources name with
  | none => exact .inr (.inr ⟨rfl, rfl⟩)
  | some source =>
    cases source with
    | text plain => exact .inl ⟨plain, rfl, rfl⟩
    | rendering r => exact .inr (.inl ⟨_, by simp, rfl, rfl⟩)
    | sequence s => exact .inr (.inl ⟨_, by simp, rfl, rfl⟩)

/-- A slot gets the source of its name. -/
theorem Sources.take_fst (sources : Sources) (name : String) :
    (sources.take name).1 = Named.get? sources name := by
  obtain ⟨_, found, taken⟩ | ⟨_, -, found, taken⟩ | ⟨found, taken⟩ := sources.take_cases name <;>
    rw [taken, found]

/-- What is left of the sources was there before. -/
theorem Sources.get?_of_take {sources : Sources} {name other : String} {source : Source}
    (found : Named.get? (sources.take name).2 other = some source) :
    Named.get? sources other = some source := by
  obtain ⟨_, -, taken⟩ | ⟨_, -, -, taken⟩ | ⟨-, taken⟩ := sources.take_cases name <;>
    rw [taken] at found
  · exact found
  · rw [Named.get?_erase] at found
    split at found
    · cases found
    · exact found
  · exact found

/-- What holds of literal texts, of slots without a source, and of slots that are filled from the sources of
    the names in sections, holds of all pieces of these sections. -/
theorem TemplateStream.assign_forall {P : Piece → Prop} (segment : ∀ text, P (.segment text))
    (absent : P (.slot none)) (sections : List (String × String)) {sources : Sources}
    (each : ∀ name ∈ sections.map (·.1), ∀ source, Named.get? sources name = some source →
      P (.slot (some source))) (w : EventLoop) : ∀ piece ∈ (assign sections sources w).1, P piece := by
  induction sections generalizing sources w with
  | nil => exact fun _ member => absurd member List.not_mem_nil
  | cons entry rest ih =>
    obtain ⟨name, text⟩ := entry
    obtain ⟨w', -, assigned⟩ := assign_cons name text rest sources w
    rw [assigned, List.forall_mem_cons, List.forall_mem_cons, sources.take_fst]
    rw [List.map_cons, List.forall_mem_cons] at each
    refine ⟨?_, segment text, ih (fun other occurs source found => ?_) w'⟩
    · cases found : Named.get? sources name with
      | none => exact absent
      | some source => exact each.1 source found
    · exact each.2 other occurs source (Sources.get?_of_take found)

namespace TemplateStream

/-- One move over the pieces of a stream, without an error, and what can be seen of it. -/
inductive Move : List Piece → EventLoop → List Happening → List Piece → EventLoop → Prop
  /-- The rendering in a slot goes on. -/
  | render {r r' : Rendering} {handed : List Registration} {w w' : EventLoop}
      (step : r.Step w handed r' w') (before after : List Piece) :
      Move (before ++ .slot (some (.rendering r)) :: after) w
        (History.handIns none (!w.registry.closed) (handed.map (·.slot)))
        (before ++ .slot (some (.rendering r')) :: after) w'
  | segment (text : String) (rest : List Piece) (w : EventLoop) :
      Move (.segment text :: rest) w (History.writes (Chunk.literals text)) rest w
  | absent (rest : List Piece) (w : EventLoop) : Move (.slot none :: rest) w [] rest w
  | text (text : String) (rest : List Piece) (w : EventLoop) :
      Move (.slot (some (.text text)) :: rest) w (History.writes (Chunk.contents text)) rest w
  /-- The rendering of the slot is there. -/
  | markup (markup : String) (rest : List Piece) (w : EventLoop) :
      Move (.slot (some (.rendering (.done markup))) :: rest) w
        (History.writes (Chunk.contents markup)) rest w
  /-- The sequence of the slot yields a chunk. -/
  | element {s s' : Sequence} {chunk : Chunk} {w w' : EventLoop}
      (asked : s.poll w = (.item (.ok chunk), s', w')) (rest : List Piece) :
      Move (.slot (some (.sequence s)) :: rest) w (History.writes [chunk])
        (.slot (some (.sequence s')) :: rest) w'
  /-- The sequence of the slot has nothing yet. -/
  | waiting {s s' : Sequence} {w w' : EventLoop} (asked : s.poll w = (.waiting, s', w'))
      (rest : List Piece) :
      Move (.slot (some (.sequence s)) :: rest) w [] (.slot (some (.sequence s')) :: rest) w'
  /-- The sequence of the slot has come to its end, and is given up. -/
  | exhausted {s s' : Sequence} {w w' : EventLoop} (asked : s.poll w = (.finished, s', w'))
      (rest : List Piece) :
      Move (.slot (some (.sequence s)) :: rest) w [] rest (s'.release w')
  /-- Something happens that does not concern the registry. -/
  | elsewhere {w w' : EventLoop} (same : w'.registry = w.registry) (pieces : List Piece) :
      Move pieces w [] pieces w'

/-- Any number of moves. -/
inductive Moves : List Piece → EventLoop → List Happening → List Piece → EventLoop → Prop
  | refl (pieces : List Piece) (w : EventLoop) : Moves pieces w [] pieces w
  | head {pieces pieces' pieces'' : List Piece} {w w' w'' : EventLoop} {new later : List Happening}
      (move : Move pieces w new pieces' w') (rest : Moves pieces' w' later pieces'' w'') :
      Moves pieces w (new ++ later) pieces'' w''

namespace Moves

variable {pieces pieces' pieces'' : List Piece} {w w' w'' : EventLoop} {new later : List Happening}

theorem single (move : Move pieces w new pieces' w') : Moves pieces w new pieces' w' := by
  simpa using head move (refl pieces' w')

theorem trans (first : Moves pieces w new pieces' w') (second : Moves pieces' w' later pieces'' w'') :
    Moves pieces w (new ++ later) pieces'' w'' := by
  induction first with
  | refl => exact second
  | head move _ ih =>
    rw [List.append_assoc]
    exact head move (ih second)

/-- What is done to the journal before and after moves does not concern them. -/
theorem amid {w₁ w₂ : EventLoop} (before : w₁.registry = w.registry)
    (moves : Moves pieces w₁ new pieces' w₂) (after : w'.registry = w₂.registry) :
    Moves pieces w new pieces' w' := by
  simpa using
    head (.elsewhere before pieces) (moves.trans (single (.elsewhere after pieces')))

/-- What every move keeps, any number of moves keeps. -/
theorem keeps {P : List Happening → List Piece → EventLoop → Prop} {h : List Happening}
    (moves : Moves pieces w new pieces' w') (start : P h pieces w)
    (move : ∀ {h new pieces pieces' w w'}, P h pieces w → Move pieces w new pieces' w' →
      P (h ++ new) pieces' w') : P (h ++ new) pieces' w' := by
  induction moves generalizing h with
  | refl => simpa using start
  | head first _ ih =>
    rw [← List.append_assoc]
    exact ih (move start first)

/-- The steps of a rendering are moves of the stream whose slot it fills. -/
theorem render {r r' : Rendering} {handed : List Registration} (steps : r.Steps w handed r' w')
    (before after : List Piece) :
    Moves (before ++ .slot (some (.rendering r)) :: after) w
      (History.handIns none (!w.registry.closed) (handed.map (·.slot)))
      (before ++ .slot (some (.rendering r')) :: after) w' := by
  induction steps with
  | refl => exact refl _ _
  | head step _ ih =>
    rw [List.map_append, History.handIns_append]
    rw [step.closed] at ih
    exact head (.render step before after) ih

end Moves

/-! ### Asking for a chunk -/

/-- Letting the renderings of all slots go on is a sequence of moves, which hand in fragments and
    yield nothing; `before` are the pieces that have had their turn. -/
theorem Drives.moves {pieces left : List Piece} {w w' : EventLoop} (before : List Piece)
    (drives : Drives pieces w left w') :
    ∃ count, w'.registry.next = w.registry.next + count ∧
      Moves (before ++ pieces) w
        (History.handIns none (!w.registry.closed) (List.range' w.registry.next count))
        (before ++ left) w' ∧
      w'.registry.closed = w.registry.closed := by
  induction drives generalizing before with
  | nil => exact ⟨0, rfl, .refl _ _, rfl⟩
  | @rendering r rest left w w' _ _ ih =>
    obtain ⟨handed, steps⟩ := r.poll_steps w
    obtain ⟨count, next, moves, closed⟩ := ih (before ++ [.slot (some (.rendering (r.poll w).1))])
    -- The slots that this rendering has got come before those of the renderings behind it.
    obtain ⟨nextMiddle, numbers⟩ := steps.numbered
    have first := Moves.render steps before rest
    rw [List.append_assoc, List.append_assoc, steps.closed, nextMiddle] at moves
    refine ⟨handed.length + count, by omega, ?_, closed.trans steps.closed⟩
    rw [← List.range'_append_1, History.handIns_append, ← numbers]
    exact first.trans moves
  | @other piece _ _ _ _ _ _ ih =>
    obtain ⟨count, next, moves, closed⟩ := ih (before ++ [piece])
    rw [List.append_assoc, List.append_assoc] at moves
    exact ⟨count, next, moves, closed⟩

/-- What asking for a chunk comes to, as moves from the pieces there were to those of the stream left;
    `h` is what was seen before the answer.  Nothing is said about errors and panics. -/
def Went {σ : Type} (stream : σ → TemplateStream) (pieces : List Piece) (w : EventLoop)
    (h : List Happening) : StreamPoll σ × EventLoop → Prop
  | (.ready none s, w') => (stream s).pieces = [] ∧ Moves pieces w h [] w'
  | (.ready (some (.ok chunk)) s, w') =>
    (stream s).finished = false ∧
      Moves pieces w (h ++ History.writes [chunk]) (stream s).pieces w'
  | (.ready (some (.error _)) _, _) => True
  | (.pending s, w') => (stream s).finished = false ∧ Moves pieces w h (stream s).pieces w'
  | (.panicked _, _) => True

namespace Went

variable {σ : Type} {stream : σ → TemplateStream} {pieces pieces' : List Piece} {w w' : EventLoop}
  {h : List Happening}

/-- Moves in front of an answer. -/
theorem after {result : StreamPoll σ × EventLoop} (moves : Moves pieces w h pieces' w')
    (went : Went stream pieces' w' [] result) : Went stream pieces w h result := by
  match result, went with
  | (.ready none s, _), ⟨ended, rest⟩ => exact ⟨ended, by simpa using moves.trans rest⟩
  | (.ready (some (.ok chunk)) s, _), ⟨goesOn, rest⟩ => exact ⟨goesOn, moves.trans rest⟩
  | (.ready (some (.error _)) _, _), _ => trivial
  | (.pending s, _), ⟨goesOn, rest⟩ => exact ⟨goesOn, by simpa using moves.trans rest⟩
  | (.panicked _, _), _ => trivial

/-- What is done to the journal before asking and after the answer does not concern the moves. -/
theorem amid {w₁ : EventLoop} {result : StreamPoll σ × EventLoop}
    (before : w₁.registry = w.registry) (went : Went stream pieces w₁ h result)
    (after : w'.registry = result.2.registry) : Went stream pieces w h (result.1, w') := by
  match result, went with
  | (.ready none s, _), ⟨ended, moves⟩ => exact ⟨ended, moves.amid before after⟩
  | (.ready (some (.ok chunk)) s, _), ⟨goesOn, moves⟩ => exact ⟨goesOn, moves.amid before after⟩
  | (.ready (some (.error _)) s, _), _ => trivial
  | (.pending s, _), ⟨goesOn, moves⟩ => exact ⟨goesOn, moves.amid before after⟩
  | (.panicked _, _), _ => trivial

/-- The moves of an answer that is no error; a stream that has ended has no pieces left. -/
theorem moves {answer : StreamPoll σ} {next : σ} (went : Went stream pieces w h (answer, w'))
    (onward : answer.next? = some next) (clean : ∀ error, .error error ∉ answer.items) :
    Moves pieces w (h ++ History.reads answer.items) (stream next).pieces w' ∧
      ((stream next).finished → (stream next).pieces = []) := by
  match answer, went with
  | .ready none s, ⟨ended, moves⟩ =>
    obtain rfl := Option.some.inj onward
    exact ⟨by simpa [ended, Polled.items] using moves, fun _ => ended⟩
  | .ready (some (.ok chunk)) s, ⟨goesOn, moves⟩ =>
    obtain rfl := Option.some.inj onward
    exact ⟨moves, by simp [goesOn]⟩
  | .ready (some (.error error)) s, _ => exact absurd List.mem_cons_self (clean error)
  | .pending s, ⟨goesOn, moves⟩ =>
    obtain rfl := Option.some.inj onward
    exact ⟨by simpa [Polled.items] using moves, by simp [goesOn]⟩

end Went

variable {piece : Piece} {slots : Nat}

/-- A blank piece is passed. -/
theorem Moves.of_blank (isBlank : piece.Blank slots) (rest : List Piece) (w : EventLoop) :
    Moves (piece :: rest) w [] rest w := by
  cases isBlank with
  | @segment text isEmpty => simpa [Chunk.literals, isEmpty] using single (.segment text rest w)
  | absent => exact .single (.absent rest w)
  | @text text isEmpty => simpa [Chunk.contents, isEmpty] using single (.text text rest w)
  | @markup markup isEmpty => simpa [Chunk.contents, isEmpty] using single (.markup markup rest w)

/-- A piece that is a chunk is written. -/
theorem Moves.of_written {chunk : Chunk} (isWritten : piece.Written slots chunk) (rest : List Piece)
    (w : EventLoop) : Moves (piece :: rest) w (History.writes [chunk]) rest w := by
  cases isWritten with
  | @segment text filled => simpa [Chunk.literals, filled] using single (.segment text rest w)
  | @text text filled => simpa [Chunk.contents, filled] using single (.text text rest w)
  | @markup markup filled => simpa [Chunk.contents, filled] using single (.markup markup rest w)

variable {pieces : List Piece} {position : Nat} {w : EventLoop}
  {result : StreamPoll TemplateStream × EventLoop}

/-- Walking over the pieces is a sequence of moves. -/
theorem Walks.went (walks : Walks pieces position w result) : Went id pieces w [] result := by
  induction walks with
  | ended => exact ⟨rfl, .refl _ _⟩
  | @blank _ _ rest _ w _ isBlank _ ih => exact Went.after (.of_blank isBlank rest w) ih
  | written isWritten rest _ w => exact ⟨rfl, .of_written isWritten rest w⟩
  | failed | error => trivial
  | pending => exact ⟨rfl, .refl _ _⟩
  | item asked rest => exact ⟨rfl, .single (.element asked rest)⟩
  | @finished _ _ rest _ _ _ _ asked _ ih => exact Went.after (.single (.exhausted asked rest)) ih
  | waiting asked rest => exact ⟨rfl, .single (.waiting asked rest)⟩

/-- Walking over the pieces gives out no slots. -/
theorem Walks.next (walks : Walks pieces position w result) :
    result.2.registry.next = w.registry.next := by
  induction walks with
  | ended | written | failed | pending => rfl
  | blank _ _ ih => exact ih
  | item asked | waiting asked => exact Sequence.next_of_poll asked
  | @error _ _ _ _ w' asked =>
    show w'.registry.next = _
    exact Sequence.next_of_poll asked
  | @finished _ s' _ _ _ _ _ asked _ ih =>
    rw [ih, s'.release_next]
    exact Sequence.next_of_poll asked

/-- No time passes while the stream walks over the pieces. -/
theorem Walks.now (walks : Walks pieces position w result) : result.2.now = w.now := by
  induction walks with
  | ended | written | failed | pending => rfl
  | blank _ _ ih => exact ih
  | item asked | waiting asked => exact Sequence.now_of_poll asked
  | @error _ _ _ _ w' asked =>
    show w'.now = _
    exact Sequence.now_of_poll asked
  | @finished _ s' _ _ _ _ _ asked _ ih =>
    rw [ih, s'.release_now]
    exact Sequence.now_of_poll asked

/-- Asking a stream for a chunk is a sequence of moves: fragments are handed in, then a chunk may
    come. -/
theorem poll_moves (s : TemplateStream) (w : EventLoop) (sound : s.finished → s.pieces = []) :
    Went id s.pieces w (w.handedInSince (s.poll w).2) (s.poll w) := by
  have asks := s.asks w
  generalize s.poll w = result at asks ⊢
  cases asks with
  | ended finished =>
    refine ⟨sound finished, ?_⟩
    rw [sound finished]
    simpa [EventLoop.handedInSince] using Moves.refl [] w
  | panicked => trivial
  | walked _ drives walks =>
    obtain ⟨count, next, moves, -⟩ := drives.moves []
    have since : w.handedInSince result.2 =
        History.handIns none (!w.registry.closed) (List.range' w.registry.next count) := by
      rw [EventLoop.handedInSince, walks.next, next, Nat.add_sub_cancel_left]
    rw [since]
    exact Went.after moves walks.went

end TemplateStream

end ProgressiveHtml
