import ProgressiveHtml.Proofs.Rendering.Notes
import ProgressiveHtml.Proofs.Related
import ProgressiveHtml.Proofs.Template.Move

namespace ProgressiveHtml

/-!
# Template streams — the report of a failure

A stream that comes to an error reports it with a position and ends.  The report is the only one in the
whole life of the stream, and the position tells the slot whose source has produced the error: it is the
number of the slot for a sequence, and one more for a rendering, whose slot counts as passed by then.

* `Timeline.failures` — the failures of streams that the journal reports;
* `Sources.assigned`, `TemplateStream.Remains` — the sources of all slots, and what remains of them;
* `TemplateStream.Passes`, `Source.Fails` — pieces that bring nothing, and a source that produces an error;
* `TemplateStream.FailsAt`, `TemplateStream.Fault` — the slot at which a stream comes to an error;
* `TemplateStream.Sound`, `TemplateStream.Sound.run` — a stream that is read, as long as it has come to no error;
* `TemplateStream.reports_failure` — a failure is reported once, for that slot.
-/

/-! ### Reports -/

/-- The failure of a stream that an event reports: the error and the position. -/
def Event.streamFailure? : Event → Option (RenderError × Nat)
  | notice (.streamFailed error position) => some (error, position)
  | _ => none

/-- An event that reports no failure of a stream. -/
def Event.NoReport (event : Event) : Prop := event.streamFailure? = none

/-- The failures of streams that have been reported, in order. -/
def Timeline.failures (t : Timeline) : List (RenderError × Nat) :=
  t.events.filterMap Event.streamFailure?

theorem Event.IsRoutine.noReport {event : Event} (routine : event.IsRoutine) : event.NoReport := by
  cases routine <;> rfl

theorem Event.OfFragment.noReport {event : Event} (ofFragment : event.OfFragment) : event.NoReport := by
  cases ofFragment <;> rfl

/-- What goes on without reports leaves the reports as they are. -/
theorem EventLoop.Writes.failures_eq {w w' : EventLoop} (writes : w.Writes Event.NoReport w') :
    w'.timeline.failures = w.timeline.failures :=
  writes.adds.filterMap

theorem EventLoop.failures_note (w : EventLoop) (error : RenderError) (position : Nat) :
    (w.note (.notice (.streamFailed error position))).timeline.failures =
      w.timeline.failures ++ [(error, position)] := by
  rw [Timeline.failures, note, Timeline.events_note, List.filterMap_append]
  rfl

/-! ### Sources -/

namespace Source

/-- What is rendered for a source notes only events of a kind. -/
def Notes (P : Event → Prop) : Source → Prop
  | rendering r => r.Notes P
  | _ => True

/-- What may be left of a source that is asked again and again. -/
inductive Becomes (source : Source) : Source → Prop
  | same : Becomes source source
  | rendering {r : Rendering} (before : Becomes source (.rendering r)) (w : EventLoop) :
      Becomes source (.rendering (r.poll w).1)
  | sequence {s : Sequence} (before : Becomes source (.sequence s)) (w : EventLoop) :
      Becomes source (.sequence (s.poll w).2.1)

/-- In a state a source produces an error: its rendering has failed with it, or its sequence is asked and
    yields it. -/
inductive Fails : Source → EventLoop → RenderError → EventLoop → Prop
  | rendering (error : RenderError) (w : EventLoop) : Fails (.rendering (.failed error)) w error w
  | sequence {s s' : Sequence} {error : RenderError} {w w' : EventLoop}
      (asked : s.poll w = (.item (.error error), s', w')) : Fails (.sequence s) w error w'

/-- The position that is reported for the failure of a source in a slot: the number of the slot for a
    sequence, and one more for anything else. -/
def reportedAt : Source → Nat → Nat
  | sequence _, index => index
  | _, index => index + 1

variable {P : Event → Prop} {source left : Source}

theorem Becomes.notes (routine : ∀ event, event.IsRoutine → P event) (becomes : source.Becomes left)
    (notes : source.Notes P) : left.Notes P := by
  induction becomes with
  | same => exact notes
  | rendering _ w ih => exact Rendering.Notes.ask routine ih w
  | sequence => trivial

/-- What is left of a source reports its failure as the source does. -/
theorem Becomes.reportedAt_eq (becomes : source.Becomes left) (index : Nat) :
    left.reportedAt index = source.reportedAt index := by
  induction becomes with
  | same => rfl
  | rendering _ _ ih | sequence _ _ ih => exact ih

/-- The number of the slot is reported for sequences only. -/
theorem reportedAt_eq_iff {index : Nat} : source.reportedAt index = index ↔ ∃ s, source = .sequence s := by
  cases source with
  | text | rendering => simp [reportedAt]
  | sequence s => simp [reportedAt]

/-- A value reports no failure of a stream, and notes nothing else either. -/
theorem notes_ofEventual (value : Eventual (Except RenderError String)) :
    (Source.ofEventual value).Notes P := by
  refine Eventual.notes_conclude value ?_
  cases value.result <;> trivial

/-- Nor does a tree. -/
theorem notes_ofNode (node : Node) (env : Environment) : (Source.ofNode node env).Notes Event.NoReport :=
  Rendering.Notes.mono (fun _ => Event.OfFragment.noReport) ((Built.node node).notes_rendering env)

end Source

namespace Sources

/-- What is rendered for sources reports no failure of a stream. -/
def NoReport (sources : Sources) : Prop :=
  ∀ name source, Named.get? sources name = some source → source.Notes Event.NoReport

theorem noReport_ofList {entries : List (String × Source)}
    (each : ∀ entry ∈ entries, entry.2.Notes Event.NoReport) : Sources.NoReport (.ofList entries) :=
  fun _ _ found => each _ (Named.mem_of_get?_ofList found)

/-- The sources that slots get in order: a text at every slot of its name, anything else only at the
    first. -/
def assigned (sources : Sources) : List String → List (Option Source)
  | [] => []
  | name :: rest => (sources.take name).1 :: assigned (sources.take name).2 rest

/-- A slot gets a source that was given for its name. -/
theorem get?_of_assigned {sources : Sources} {names : List String} {index : Nat} {source : Source}
    (isGiven : (sources.assigned names)[index]? = some (some source)) :
    ∃ name, names[index]? = some name ∧ Named.get? sources name = some source := by
  induction names generalizing sources index with
  | nil => cases isGiven
  | cons name rest ih =>
    cases index with
    | zero => exact ⟨name, rfl, (sources.take_fst name).symm.trans (Option.some.inj isGiven)⟩
    | succ index =>
      obtain ⟨other, isName, found⟩ := ih isGiven
      exact ⟨other, isName, get?_of_take found⟩

end Sources

/-! ### Sequences -/

theorem Supply.adds_poll (s : Supply) (t : Timeline) : t.Adds Event.NoReport (s.poll t).2.2 := by
  refine .trans ?_ (.of_events_eq (s.events_poll t))
  unfold ask
  split
  · exact .refl t
  · exact .note (show Event.NoReport (.pulled s.name) from rfl) t

/-- A sequence that is asked reports no failure of a stream. -/
theorem Sequence.poll_writes (s : Sequence) {w : EventLoop} (still : w.Notes Event.NoReport) :
    w.Writes Event.NoReport (s.poll w).2.2 := by
  cases s with
  | supply s => exact ⟨s.adds_poll w.timeline, still⟩
  | patches => exact still.drain fun _ => Event.IsRoutine.noReport

theorem Source.Fails.writes {source : Source} {error : RenderError} {w w' : EventLoop}
    (fails : source.Fails w error w') (still : w.Notes Event.NoReport) : w.Writes Event.NoReport w' := by
  cases fails with
  | rendering => exact still.refl
  | @sequence s _ _ _ _ asked =>
    have writes := s.poll_writes still
    rwa [asked] at writes

/-- An item that an answer brings is what the answer is. -/
theorem Polled.eq_ready_of_mem_items {σ : Type} {answer : Polled σ (Option Item)} {item : Item}
    (member : item ∈ answer.items) : ∃ last, answer = .ready (some item) last := by
  unfold items at member
  split at member
  · obtain rfl := List.mem_singleton.1 member
    exact ⟨_, rfl⟩
  · cases member

namespace TemplateStream

/-! ### What remains of the slots -/

/-- The pieces are what remains of the slots from a number on, where `given` are the sources that all slots
    were given. -/
def Remains (given : List (Option Source)) : Nat → List Piece → Prop
  | index, [] => index = given.length
  | index, .segment _ :: rest => Remains given index rest
  | index, .slot left? :: rest =>
    (∃ source?, given[index]? = some source? ∧ Option.Rel Source.Becomes source? left?) ∧
      Remains given (index + 1) rest

variable {given : List (Option Source)} {index position : Nat} {pieces rest left : List Piece}
  {w w' : EventLoop} {error : RenderError}

/-- What remains at a slot with a source is left of the source that it was given. -/
theorem Remains.exists_source {now : Source} (remains : Remains given index (.slot (some now) :: rest)) :
    ∃ source, given[index]? = some (some source) ∧ source.Becomes now := by
  obtain ⟨⟨source?, isGiven, becomes⟩, -⟩ := remains
  cases becomes with
  | some becomes => exact ⟨_, isGiven, becomes⟩

theorem Remains.ask {s : Sequence} (remains : Remains given index (.slot (some (.sequence s)) :: rest))
    (w : EventLoop) : Remains given index (.slot (some (.sequence (s.poll w).2.1)) :: rest) := by
  obtain ⟨source, isGiven, becomes⟩ := remains.exists_source
  exact ⟨⟨_, isGiven, .some (becomes.sequence w)⟩, remains.2⟩

/-- Behind a piece the others remain. -/
theorem Remains.exists_behind {piece : Piece} (remains : Remains given index (piece :: rest)) :
    ∃ next, Remains given next rest := by
  cases piece with
  | segment => exact ⟨index, remains⟩
  | slot => exact ⟨index + 1, remains.2⟩

/-- All slots are there at the start. -/
theorem remains_assign (sections : List (String × String)) (passed : List (Option Source))
    (sources : Sources) (w : EventLoop) :
    Remains (passed ++ sources.assigned (sections.map (·.1))) passed.length
      (assign sections sources w).1 := by
  induction sections generalizing passed sources w with
  | nil => simp [assign, Remains, Sources.assigned]
  | cons entry others ih =>
    obtain ⟨name, text⟩ := entry
    obtain ⟨w', -, assigned⟩ := assign_cons name text others sources w
    have behind := ih (passed ++ [(sources.take name).1]) (sources.take name).2 w'
    rw [List.append_assoc, List.length_append, List.length_singleton] at behind
    rw [assigned]
    refine ⟨⟨(sources.take name).1, by simp [Sources.assigned], ?_⟩, behind⟩
    cases (sources.take name).1 with
    | none => exact .none
    | some source => exact .some .same

/-- Renderings that go on stay at their slots. -/
theorem Drives.remains (drives : Drives pieces w left w') (remains : Remains given index pieces) :
    Remains given index left := by
  induction drives generalizing index with
  | nil => exact remains
  | @rendering r _ _ w _ _ _ ih =>
    obtain ⟨source, isGiven, becomes⟩ := remains.exists_source
    exact ⟨⟨_, isGiven, .some (becomes.rendering w)⟩, ih remains.2⟩
  | @other piece _ left _ _ _ _ ih =>
    cases piece with
    | segment text =>
      have later : Remains given index left := ih remains
      exact later
    | slot => exact ⟨remains.1, ih remains.2⟩

/-- A rendering that goes on in a slot reports no failure of a stream, if those of the sources do not. -/
theorem Remains.poll_writes {r : Rendering}
    (silent : ∀ source, some source ∈ given → source.Notes Event.NoReport)
    (remains : Remains given index (.slot (some (.rendering r)) :: rest))
    (still : w.Notes Event.NoReport) : w.Writes Event.NoReport (r.poll w).2 := by
  obtain ⟨source, isGiven, becomes⟩ := remains.exists_source
  have notes := silent source (List.mem_of_getElem? isGiven)
  exact still.poll (fun _ => Event.IsRoutine.noReport)
    (becomes.notes (fun _ => Event.IsRoutine.noReport) notes)

/-- Nor do those in all slots. -/
theorem Drives.writes (silent : ∀ source, some source ∈ given → source.Notes Event.NoReport)
    (drives : Drives pieces w left w') (remains : Remains given index pieces)
    (still : w.Notes Event.NoReport) : w.Writes Event.NoReport w' := by
  induction drives generalizing index with
  | nil => exact still.refl
  | rendering _ _ ih =>
    have writes := remains.poll_writes silent still
    exact writes.trans (ih remains.2 writes.notes)
  | other _ _ ih =>
    obtain ⟨_, behind⟩ := remains.exists_behind
    exact ih behind still

theorem Panics.writes (silent : ∀ source, some source ∈ given → source.Notes Event.NoReport)
    {message : String} (panics : Panics pieces w message w') (remains : Remains given index pieces)
    (still : w.Notes Event.NoReport) : w.Writes Event.NoReport w' := by
  induction panics generalizing index with
  | here => exact remains.poll_writes silent still
  | rendering _ _ ih =>
    have writes := remains.poll_writes silent still
    exact writes.trans (ih remains.2 writes.notes)
  | other _ _ ih =>
    obtain ⟨_, behind⟩ := remains.exists_behind
    exact ih behind still

/-! ### Walking -/

/-- The walk passes pieces that bring nothing, and has got to those that are left. -/
inductive Passes : List Piece → EventLoop → List Piece → EventLoop → Prop
  | refl (pieces : List Piece) (w : EventLoop) : Passes pieces w pieces w
  | segment {rest left : List Piece} {w w' : EventLoop} {text : String} (blank : text.isEmpty)
      (later : Passes rest w left w') : Passes (.segment text :: rest) w left w'
  | absent {rest left : List Piece} {w w' : EventLoop} (later : Passes rest w left w') :
      Passes (.slot none :: rest) w left w'
  | text {rest left : List Piece} {w w' : EventLoop} {text : String} (blank : text.isEmpty)
      (later : Passes rest w left w') : Passes (.slot (some (.text text)) :: rest) w left w'
  | markup {rest left : List Piece} {w w' : EventLoop} {markup : String} (blank : markup.isEmpty)
      (later : Passes rest w left w') :
      Passes (.slot (some (.rendering (.done markup))) :: rest) w left w'
  | exhausted {rest left : List Piece} {w w₁ w' : EventLoop} {s s' : Sequence}
      (asked : s.poll w = (.finished, s', w₁)) (later : Passes rest (s'.release w₁) left w') :
      Passes (.slot (some (.sequence s)) :: rest) w left w'

/-- A sequence that has come to its end and is given up reports no failure of a stream. -/
theorem exhausted_writes {s s' : Sequence} {w₁ : EventLoop} (asked : s.poll w = (.finished, s', w₁))
    (still : w.Notes Event.NoReport) : w.Writes Event.NoReport (s'.release w₁) := by
  have writes := s.poll_writes still
  rw [asked] at writes
  exact writes.trans (writes.notes.released ((Source.sequence s').release_eq w₁))

theorem Passes.writes (passes : Passes pieces w left w') (still : w.Notes Event.NoReport) :
    w.Writes Event.NoReport w' := by
  induction passes with
  | refl => exact still.refl
  | segment _ _ ih | absent _ ih | text _ _ ih | markup _ _ ih => exact ih still
  | exhausted asked _ ih =>
    have writes := exhausted_writes asked still
    exact writes.trans (ih writes.notes)

/-- Behind a blank piece the others remain. -/
theorem Remains.of_blank {piece : Piece} {slots : Nat} (remains : Remains given index (piece :: rest))
    (isBlank : piece.Blank slots) : Remains given (index + slots) rest := by
  cases isBlank with
  | segment => exact remains
  | absent | text | markup => exact remains.2

theorem Remains.of_written {piece : Piece} {slots : Nat} {chunk : Chunk}
    (remains : Remains given index (piece :: rest)) (isWritten : piece.Written slots chunk) :
    Remains given (index + slots) rest := by
  cases isWritten with
  | segment => exact remains
  | text | markup => exact remains.2

theorem Passes.of_blank {piece : Piece} {slots : Nat} (isBlank : piece.Blank slots)
    (passes : Passes rest w left w') : Passes (piece :: rest) w left w' := by
  cases isBlank with
  | segment isEmpty => exact .segment isEmpty passes
  | absent => exact .absent passes
  | text isEmpty => exact .text isEmpty passes
  | markup isEmpty => exact .markup isEmpty passes

variable {result : StreamPoll TemplateStream × EventLoop}

/-- A walk that comes to an error has passed pieces that bring nothing, and then the source of a slot has
    produced the error. -/
theorem Walks.fails {next : TemplateStream} (walks : Walks pieces position w result)
    (remains : Remains given position pieces) (failed : result = (.ready (some (.error error)) next, w')) :
    ∃ index now rest w₁ w₂, Passes pieces w (.slot (some now) :: rest) w₁ ∧
      Remains given index (.slot (some now) :: rest) ∧ now.Fails w₁ error w₂ ∧
      next.finished = true ∧ w' = w₂.note (.notice (.streamFailed error (now.reportedAt index))) := by
  induction walks with
  | ended | written | pending | item | waiting => cases failed
  | blank isBlank _ ih =>
    obtain ⟨index, now, behind, w₁, w₂, passes, found⟩ := ih (remains.of_blank isBlank) failed
    exact ⟨index, now, behind, w₁, w₂, .of_blank isBlank passes, found⟩
  | failed _ rest position w =>
    cases failed
    exact ⟨position, _, rest, w, w, .refl _ _, remains, .rendering error w, rfl, rfl⟩
  | @error _ _ _ w w₂ asked rest position =>
    cases failed
    exact ⟨position, _, rest, w, w₂, .refl _ _, remains, .sequence asked, rfl, rfl⟩
  | finished asked _ ih =>
    obtain ⟨index, now, behind, w₂, w₃, passes, found⟩ := ih remains.2 failed
    exact ⟨index, now, behind, w₂, w₃, .exhausted asked passes, found⟩

/-- A walk that comes to no error reports no failure, and the stream that is left stands at what remains of
    its slots. -/
theorem Walks.unfailed (walks : Walks pieces position w result) (remains : Remains given position pieces)
    (still : w.Notes Event.NoReport) (unfailed : ∀ error, .error error ∉ result.1.items) :
    w.Writes Event.NoReport result.2 ∧
      ∀ next, result.1.next? = some next → next.finished = false →
        Remains given next.position next.pieces := by
  induction walks with
  | ended =>
    refine ⟨still.refl, fun next isNext goesOn => ?_⟩
    obtain rfl := Option.some.inj isNext
    cases goesOn
  | blank isBlank _ ih => exact ih (remains.of_blank isBlank) still unfailed
  | written isWritten =>
    refine ⟨still.refl, fun next isNext _ => ?_⟩
    obtain rfl := Option.some.inj isNext
    exact remains.of_written isWritten
  | failed error | @error _ _ error => exact absurd List.mem_cons_self (unfailed error)
  | pending =>
    refine ⟨still.refl, fun next isNext _ => ?_⟩
    obtain rfl := Option.some.inj isNext
    exact remains
  | @item s _ _ w _ asked | @waiting s _ w _ asked =>
    have writes := s.poll_writes still
    -- A sequence that is asked stays at its slot.
    have onward := remains.ask w
    rw [asked] at writes onward
    refine ⟨writes, fun next isNext _ => ?_⟩
    obtain rfl := Option.some.inj isNext
    exact onward
  | finished asked _ ih =>
    have writes := exhausted_writes asked still
    obtain ⟨later, onward⟩ := ih remains.2 writes.notes unfailed
    exact ⟨writes.trans later, onward⟩

/-! ### Asking a stream -/

/-- Asked in a state, a stream comes to an error at the slot with a number: the renderings in its slots go
    on, pieces that bring nothing are passed, and then what is left of the source of this slot produces the
    error. -/
inductive FailsAt (given : List (Option Source)) (s : TemplateStream) (w : EventLoop) (index : Nat)
    (now : Source) (error : RenderError) (w' : EventLoop) : Prop
  | intro {left rest : List Piece} {w₁ w₂ : EventLoop} (goesOn : s.finished = false)
      (goOn : drive s.pieces w = (.ok left, w₁)) (passes : Passes left w₁ (.slot (some now) :: rest) w₂)
      (place : Remains given index (.slot (some now) :: rest)) (fails : now.Fails w₂ error w') :
      FailsAt given s w index now error w'

/-- A stream that is read, as long as it has come to no error. -/
structure Sound (given : List (Option Source)) (s : TemplateStream) (w : EventLoop) : Prop where
  remains : s.finished = false → Remains given s.position s.pieces
  still : w.Notes Event.NoReport

variable {s next : TemplateStream}

/-- A stream that comes to an error has failed at a slot.  It has ended then, and the only report is the
    one of this failure. -/
theorem Sound.poll_fails (silent : ∀ source, some source ∈ given → source.Notes Event.NoReport)
    (sound : Sound given s w) (failed : s.poll w = (.ready (some (.error error)) next, w')) :
    ∃ index now w₁, FailsAt given s w index now error w₁ ∧ next.finished = true ∧
      w'.Notes Event.NoReport ∧
      w'.timeline.failures = w.timeline.failures ++ [(error, now.reportedAt index)] := by
  have asks := s.asks w
  rw [failed] at asks
  cases asks with
  | walked goesOn drives walks =>
    have remains := sound.remains goesOn
    have driveWrites := drives.writes silent remains sound.still
    obtain ⟨index, now, rest, w₂, w₃, passes, place, fails, ended, rfl⟩ :=
      walks.fails (drives.remains remains) rfl
    have passWrites := passes.writes driveWrites.notes
    have failWrites := fails.writes passWrites.notes
    refine ⟨index, now, w₃, .intro goesOn drives.drive passes place fails, ended, failWrites.notes, ?_⟩
    rw [EventLoop.failures_note, failWrites.failures_eq, passWrites.failures_eq, driveWrites.failures_eq]

/-- A stream that comes to no error reports no failure. -/
theorem Sound.poll_unfailed (silent : ∀ source, some source ∈ given → source.Notes Event.NoReport)
    (sound : Sound given s w) (unfailed : ∀ error, .error error ∉ (s.poll w).1.items) :
    w.Writes Event.NoReport (s.poll w).2 ∧
      ∀ next, (s.poll w).1.next? = some next → Sound given next (s.poll w).2 := by
  have asks := s.asks w
  generalize s.poll w = result at asks unfailed ⊢
  cases asks with
  | ended =>
    refine ⟨sound.still.refl, fun next isNext => ?_⟩
    obtain rfl := Option.some.inj isNext
    exact sound
  | panicked goesOn panics =>
    have writes := panics.writes silent (sound.remains goesOn) sound.still
    exact ⟨writes, fun next isNext => by cases isNext⟩
  | walked goesOn drives walks =>
    have remains := sound.remains goesOn
    have driveWrites := drives.writes silent remains sound.still
    obtain ⟨walkWrites, onward⟩ := walks.unfailed (drives.remains remains) driveWrites.notes unfailed
    have writes := driveWrites.trans walkWrites
    exact ⟨writes, fun next isNext => ⟨onward next isNext, writes.notes⟩⟩

/-! ### The whole life of a stream -/

/-- Beginning a template reports no failure. -/
theorem assign_writes (sections : List (String × String)) (sources : Sources)
    (still : w.Notes Event.NoReport) : w.Writes Event.NoReport (assign sections sources w).2.2 := by
  fun_induction assign sections sources w with
  | case1 => exact still.refl
  | case2 name _ _ _ w _ _ _ _ _ assigned ih =>
    rw [assigned] at ih
    have noted := still.note (show Event.NoReport (.notice (.noSource name)) from rfl)
    exact noted.trans (ih noted.notes)
  | case3 _ _ _ _ _ _ _ _ _ _ _ assigned ih =>
    rw [assigned] at ih
    exact ih still

theorem start_writes (t : Template) (sources : Sources) (still : w.Notes Event.NoReport) :
    w.Writes Event.NoReport (start t sources w).2 := by
  have assigned := assign_writes t.sections sources still
  have released := EventLoop.foldl_release (fun w (entry : String × Source) => entry.2.release_eq w)
  exact assigned.trans (assigned.notes.released (released _ _))

/-- A stream that has begun. -/
theorem Sound.start (t : Template) (sources : Sources) (still : w.Notes Event.NoReport) :
    Sound (sources.assigned t.slots) (start t sources w).1 (start t sources w).2 where
  remains _ := remains_assign t.sections [] sources w
  still := (start_writes t sources still).notes

/-- As long as a stream that is read has not ended, it has reported no failure. -/
theorem Sound.run {first : TemplateStream} {h : List Happening}
    (silent : ∀ source, some source ∈ given → source.Notes Event.NoReport) (sound : Sound given first w)
    (run : toChunkStream.Run first w h s w') :
    Sound given s w' ∧ (s.finished = false → w'.timeline.failures = w.timeline.failures) := by
  induction run with
  | start => exact ⟨sound, fun _ => rfl⟩
  | background _ move ih =>
    obtain ⟨sound, none⟩ := ih
    have writes := sound.still.background (fun _ => Event.IsRoutine.noReport) move
    exact ⟨⟨sound.remains, writes.notes⟩, fun goesOn => writes.failures_eq.trans (none goesOn)⟩
  | @poll _ s next w₁ w₂ answer _ asked onward ih =>
    obtain ⟨sound, none⟩ := ih
    replace asked : s.poll w₁ = (answer, w₂) := asked
    by_cases failed : ∃ error, .error error ∈ answer.items
    · -- With an error the stream has ended, and nothing is claimed of its reports.
      obtain ⟨error, member⟩ := failed
      obtain ⟨last, rfl⟩ := Polled.eq_ready_of_mem_items member
      obtain ⟨-, -, -, -, ended, still, -⟩ := sound.poll_fails silent asked
      obtain rfl := Option.some.inj onward
      exact ⟨⟨fun goesOn => by simp [ended] at goesOn, still⟩, fun goesOn => by simp [ended] at goesOn⟩
    · have unfailed : ∀ error, .error error ∉ (s.poll w₁).1.items := by
        rw [asked]
        exact not_exists.1 failed
      obtain ⟨writes, sounds⟩ := sound.poll_unfailed silent unfailed
      rw [asked] at writes sounds
      refine ⟨sounds next onward, fun goesOn => writes.failures_eq.trans (none ?_)⟩
      -- A stream that had ended before would still be the same.
      refine Bool.eq_false_iff.2 fun ended => ?_
      rw [poll_of_finished ended] at asked
      cases asked
      obtain rfl := Option.some.inj onward
      rw [ended] at goesOn
      cases goesOn

/-- A stream that has ended brings nothing and reports no failure any more. -/
theorem run_of_finished {h : List Happening} (finished : s.finished = true)
    (still : w.Notes Event.NoReport) (run : toChunkStream.Run s w h next w') :
    next = s ∧ History.yields h = [] ∧ w.Writes Event.NoReport w' := by
  induction run with
  | start => exact ⟨rfl, rfl, still.refl⟩
  | background _ move ih =>
    obtain ⟨same, none, writes⟩ := ih
    refine ⟨same, by rw [History.yields_append, none, move.yields, List.nil_append], ?_⟩
    exact writes.trans (writes.notes.background (fun _ => Event.IsRoutine.noReport) move)
  | @poll _ left next w₁ w₂ answer _ asked onward ih =>
    obtain ⟨rfl, none, writes⟩ := ih
    replace asked : left.poll w₁ = (answer, w₂) := asked
    rw [poll_of_finished finished] at asked
    cases asked
    obtain rfl := Option.some.inj onward
    refine ⟨rfl, ?_, writes⟩
    simp [none, EventLoop.handedInSince, Polled.items]

/-- In a state the stream of a template comes to an error, and it is the source of the slot with a number
    that produces it. -/
structure Fault (t : Template) (sources : Sources) (s : TemplateStream) (w : EventLoop)
    (error : RenderError) (index : Nat) (source : Source) : Prop where
  named : ∃ name, t.slots[index]? = some name ∧ Named.get? sources name = some source
  isGiven : (sources.assigned t.slots)[index]? = some (some source)
  produced : ∃ now w', source.Becomes now ∧ FailsAt (sources.assigned t.slots) s w index now error w'

/-- An error of a stream that is read is the fault of one slot. -/
theorem FailsAt.exists_fault {t : Template} {sources : Sources} {now : Source}
    (failsAt : FailsAt (sources.assigned t.slots) s w index now error w') :
    ∃ source, Fault t sources s w error index source ∧
      now.reportedAt index = source.reportedAt index := by
  have ⟨_, _, _, place, _⟩ := failsAt
  obtain ⟨source, isGiven, becomes⟩ := place.exists_source
  exact ⟨source, ⟨Sources.get?_of_assigned isGiven, isGiven, now, w', becomes, failsAt⟩,
    becomes.reportedAt_eq index⟩

/-- However the stream of a template is read: if it comes to an error, this is the fault of one slot, and
    over the whole life of the stream there is just one report of a failure, with this error.  It has
    the number of the slot exactly if the source of the slot is a sequence; the number that it has for a
    rendering is one more.  Nothing is reported before that, neither by beginning the template nor by
    reading or waiting, and nothing after that: reading on, waiting and giving up the stream report
    no failure. -/
theorem reports_failure (t : Template) {sources : Sources} (silent : sources.NoReport)
    {before : EventLoop} (still : before.Notes Event.NoReport) {h : List Happening}
    (run : toChunkStream.Run (start t sources before).1 (start t sources before).2 h s w)
    (failed : s.poll w = (.ready (some (.error error)) next, w')) :
    (∃ index source, Fault t sources s w error index source ∧
      w'.timeline.failures = before.timeline.failures ++ [(error, source.reportedAt index)] ∧
      (source.reportedAt index = index ↔ ∃ q, source = .sequence q)) ∧
    w.timeline.failures = before.timeline.failures ∧
    ∀ {later s' w''}, toChunkStream.Run next w' later s' w'' → History.yields later = [] ∧
      ∀ {new v}, w''.Meanwhile new v ∨ (s'.release w'').Meanwhile new v →
        v.timeline.failures = w'.timeline.failures := by
  have quiet : ∀ source, some source ∈ sources.assigned t.slots → source.Notes Event.NoReport := by
    intro source member
    obtain ⟨index, isGiven⟩ := List.mem_iff_getElem?.1 member
    obtain ⟨name, -, found⟩ := Sources.get?_of_assigned isGiven
    exact silent name source found
  obtain ⟨sound, none⟩ := (Sound.start t sources still).run quiet run
  obtain ⟨index, now, w₁, failsAt, ended, still', reported⟩ := sound.poll_fails quiet failed
  have unreported : w.timeline.failures = before.timeline.failures := by
    have ⟨goesOn, _, _, _, _⟩ := failsAt
    exact (none goesOn).trans (start_writes t sources still).failures_eq
  refine ⟨?_, unreported, fun {later s' w''} onward => ?_⟩
  · obtain ⟨source, fault, same⟩ := failsAt.exists_fault
    exact ⟨index, source, fault, by rw [reported, unreported, same], Source.reportedAt_eq_iff⟩
  · -- A stream that has ended brings nothing, and nothing that goes on beside it reports a failure.
    obtain ⟨rfl, nothing, writes⟩ := run_of_finished ended still' onward
    refine ⟨nothing, fun moves => ?_⟩
    obtain moves | moves := moves
    · exact (writes.trans (writes.notes.meanwhile (fun _ => Event.IsRoutine.noReport) moves)).failures_eq
    · have released := writes.trans (writes.notes.released (s'.release_eq w''))
      exact (released.trans (released.notes.meanwhile (fun _ => Event.IsRoutine.noReport) moves)).failures_eq

/-- Behind a tree that shows nothing and a slot without a source, a sequence brings a chunk and then an
    error: the report has the number of its slot. -/
theorem reports_failure_of_sequence :
    let items : Source :=
      .sequence (.supply (.ofList "items" [(0, .ok (.content "1")), (0, .error (.failed "down"))] false))
    let sources : Sources := .ofList [("title", .ofNode .empty .empty), ("items", items)]
    let t : Template := ⟨"<", [("title", ""), ("absent", ""), ("items", ">")]⟩
    ∃ h s next w w', toChunkStream.Run (start t sources {}).1 (start t sources {}).2 h s w ∧
      s.poll w = (.ready (some (.error (.failed "down"))) next, w') ∧
      History.yields h = [.ok (.literal "<"), .ok (.content "1")] ∧
      w'.timeline.failures = [(.failed "down", 2)] ∧
      ∃ index source, Fault t sources s w (.failed "down") index source ∧
        w'.timeline.failures = [(.failed "down", source.reportedAt index)] := by
  intro items sources t
  obtain ⟨h, s, next, w, w', run, failed, yields, failures⟩ : ∃ h s next w w',
      toChunkStream.Run (start t sources {}).1 (start t sources {}).2 h s w ∧
      s.poll w = (.ready (some (.error (.failed "down"))) next, w') ∧
      History.yields h = [.ok (.literal "<"), .ok (.content "1")] ∧
      w'.timeline.failures = [(.failed "down", 2)] :=
    ⟨_, _, _, _, _, .poll (.poll .start rfl rfl) rfl rfl, rfl, rfl, rfl⟩
  have silent : sources.NoReport := by
    refine Sources.noReport_ofList ?_
    simp only [List.forall_mem_cons]
    exact ⟨Source.notes_ofNode _ _, trivial, nofun⟩
  have still : EventLoop.Notes Event.NoReport {} := fun _ isTask => absurd isTask List.not_mem_nil
  obtain ⟨⟨index, source, fault, reported, -⟩, -, -⟩ := reports_failure t silent still run failed
  exact ⟨h, s, next, w, w', run, failed, yields, failures, index, source, fault, reported⟩

/-- In a template of one slot the failure of a value is reported for a slot that is not there. -/
theorem misreports_value :
    let sources : Sources := .ofList [("bad", .ofEventual ⟨.ofDelays "bad" [] false, none,
      .error (.failed "down")⟩)]
    let t : Template := ⟨"", [("bad", "")]⟩
    t.slots = ["bad"] ∧ ∃ next w',
      (start t sources {}).1.poll (start t sources {}).2 =
        (.ready (some (.error (.failed "down"))) next, w') ∧
      w'.timeline.failures = [(.failed "down", 1)] := by
  intro sources t
  exact ⟨rfl, _, _, rfl, rfl⟩

end TemplateStream

end ProgressiveHtml
