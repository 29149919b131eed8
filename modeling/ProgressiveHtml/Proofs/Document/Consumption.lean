import ProgressiveHtml.Proofs.Document.Assignment
import ProgressiveHtml.Proofs.EventLoop.Turn
import ProgressiveHtml.Proofs.Registry.Draining
import ProgressiveHtml.Proofs.Rendering.Evaluation
import ProgressiveHtml.Proofs.Template.Asking

namespace ProgressiveHtml

/-!
# Documents — reading without pauses

A reader without pauses waits for the next chunk all the time.  Meanwhile fragments that were woken
go on, and time passes only when the reader gets nothing and no fragment has been woken.

* `Document.Consumes` — the states that this leads to, with all renderings asked on the way;
* `EventLoop.Aside`, `Document.poll_leaves` — asking for a chunk lets renderings go on, and does nothing
  else that concerns contents;
* `Document.Consumes.undisturbed`, `Document.Undisturbed.inOrder` — when no rendering fails, everything
  is in order all the time.
-/

open Rendering

/-- The renderings of pieces that play no other part than that of the body. -/
theorem Piece.renderings_of_plays {r : Rendering} {roles : List Role} {pieces : List Piece}
    (plays : List.Forall₂ (Role.Plays r) roles pieces) (noOther : .plain ∉ roles) :
    Piece.renderings pieces = List.replicate (roles.count .body) r := by
  induction plays with
  | nil => rfl
  | @cons role piece _ _ plays _ ih =>
    rw [List.mem_cons, not_or] at noOther
    have others := ih noOther.2
    cases role with
    | plain => exact absurd rfl noOther.1
    | segment | patches =>
      obtain rfl : piece = _ := plays
      rw [List.count_cons_of_ne (by simp)]
      exact others
    | body =>
      obtain rfl : piece = _ := plays
      simpa [Piece.renderings, Piece.rendering?, List.replicate_succ] using others

namespace EventLoop

/-- The state in which something is done on behalf of a document. -/
def behalf (document : String) (w : EventLoop) : EventLoop :=
  { w with timeline := { w.timeline with document := some document } }

end EventLoop

/-- The renderings that are asked when a stream is asked for a chunk. -/
def TemplateStream.asked (s : TemplateStream) (w : EventLoop) : List (Rendering × EventLoop) :=
  if s.finished then [] else askedOfAll false false (Piece.renderings s.pieces) w

namespace Document

/-- The renderings that are asked when a document is asked for a chunk. -/
def asked (d : Document) (w : EventLoop) : List (Rendering × EventLoop) :=
  d.stream.asked (w.behalf (journalName d.requestId))

/-- The states that reading a document without pauses leads to, with all renderings that were asked,
    each with the state in which it was. -/
inductive Consumes (first : Document) (w₀ : EventLoop) :
    List (Rendering × EventLoop) → Document → EventLoop → Prop
  | start : Consumes first w₀ [] first w₀
  /-- The reader asks for the next chunk. -/
  | poll {asked : List (Rendering × EventLoop)} {d next : Document} {w : EventLoop}
      (consumes : Consumes first w₀ asked d w) (onward : (d.poll w).1.next? = some next) :
      Consumes first w₀ (asked ++ d.asked w) next (d.poll w).2
  /-- The fragment goes on that was woken first. -/
  | turn {asked : List (Rendering × EventLoop)} {d : Document} {w : EventLoop}
      (consumes : Consumes first w₀ asked d w) :
      Consumes first w₀ (asked ++ w.askedNext) d w.runNext
  /-- The reader gets nothing, and no fragment has been woken: time passes until a sleep ends that
      something waits for, or to an earlier instant. -/
  | pass {asked : List (Rendering × EventLoop)} {d next : Document} {w : EventLoop} {limit : Nat}
      (consumes : Consumes first w₀ asked d w) (waits : (d.poll w).1 = .pending next)
      (idle : (d.poll w).2.registry.queue = []) (ahead : (d.poll w).2.now ≤ limit) :
      Consumes first w₀ (asked ++ d.asked w) next ((d.poll w).2.jump next.stream.alarms limit)

end Document

/-! ### The beginning -/

namespace Document

/-- The renderings that fill the pieces of sections come from the sources of their names. -/
theorem mem_assign {sections : List (String × String)} {sources : Sources} {w : EventLoop}
    {r : Rendering}
    (member : r ∈ Piece.renderings (TemplateStream.assign sections sources w).1) :
    ∃ name ∈ sections.map (·.1), sources.get? name = some (.rendering r) := by
  refine TemplateStream.assign_forall (P := fun piece => piece = .slot (some (.rendering r)) →
    ∃ name ∈ sections.map (·.1), sources.get? name = some (.rendering r)) ?_ ?_ sections ?_ w _
    (Piece.mem_renderings.1 member) rfl
  · exact fun text same => Piece.noConfusion same
  · intro same
    cases same
  · intro name occurs source found same
    obtain rfl := Option.some.inj (Piece.slot.inj same)
    exact ⟨name, occurs, found⟩

/-- The renderings among the sources of a document are that of the body, and those of the trees for the
    head and for the trailing content. -/
theorem rendering_of_source {settings : Settings} {body : Node} {name : String} {r : Rendering}
    (found : Named.get? (sources settings body) name = some (.rendering r)) :
    r = bodyRendering settings body ∨
      ∃ node, (node = settings.head.getD (.head "" []) ∨ settings.endOfBody = some node) ∧
        r = (Built.node node).rendering .empty := by
  rw [get?_sources] at found
  split at found
  · obtain ⟨node, isLast, same⟩ := Option.map_eq_some_iff.1 found
    exact .inr ⟨node, .inr isLast, (Source.rendering.inj same).symm⟩
  split at found
  · cases found
  split at found
  · exact .inl (Source.rendering.inj (Option.some.inj found)).symm
  split at found
  · cases found
  split at found
  · exact .inr ⟨_, .inl rfl, (Source.rendering.inj (Option.some.inj found)).symm⟩
  · cases found

end Document

/-! ### Readers -/

/-- A stream that reports its end has come to its end. -/
theorem TemplateStream.finished_of_poll {s last : TemplateStream} {w after : EventLoop}
    (asked : s.poll w = (.ready none last, after)) : last.finished = true := by
  have asks := s.asks w
  rw [asked] at asks
  cases asks with
  | ended finished => exact finished
  | walked _ _ walks => exact walks.finished_of_ready rfl

namespace Document

theorem finished_of_poll {d last : Document} {w after : EventLoop}
    (asked : d.poll w = (.ready none last, after)) : last.stream.finished = true := by
  have recorded : (d.record (d.stream.poll (w.behalf (journalName d.requestId)))).1 =
      .ready none last := congrArg Prod.fst asked
  rcases polled : d.stream.poll (w.behalf (journalName d.requestId)) with
    ⟨⟨_ | _ | _, s⟩ | s | message, w'⟩ <;> rw [polled] at recorded <;>
    simp only [record, Polled.ready.injEq, reduceCtorEq, false_and, true_and] at recorded
  rw [← recorded]
  exact TemplateStream.finished_of_poll polled

end Document

/-! ### Asking for a chunk -/

namespace EventLoop

/-- What happens at one instant that has nothing to do with contents and slots. -/
structure Aside (w w' : EventLoop) : Prop where
  now : w'.now = w.now
  used : w'.used = w.used
  tasks : w'.registry.tasks = w.registry.tasks
  /-- Fragments that were woken stay so. -/
  queue : ∀ task ∈ w.registry.tasks, task.slot ∈ w.registry.queue → task.slot ∈ w'.registry.queue
  moments : ∀ cell, w'.timeline.moments cell = w.timeline.moments cell
  slots : w.Places [] w'

namespace Aside

variable {w w' w'' : EventLoop}

theorem refl (w : EventLoop) : w.Aside w :=
  ⟨rfl, rfl, rfl, fun _ _ => id, fun _ => rfl, .nothing rfl rfl rfl⟩

theorem trans (first : w.Aside w') (second : w'.Aside w'') : w.Aside w'' where
  now := second.now.trans first.now
  used := second.used.trans first.used
  tasks := second.tasks.trans first.tasks
  queue task here isWoken :=
    second.queue task (first.tasks ▸ here) (first.queue task here isWoken)
  moments cell := (second.moments cell).trans (first.moments cell)
  slots := first.slots.trans second.slots

/-- Something that is not written to the journal. -/
theorem timeline (w : EventLoop) {timeline : Timeline} (now : timeline.now = w.now)
    (journal : timeline.journal = w.timeline.journal) : w.Aside { w with timeline } where
  now := now
  used := rfl
  tasks := rfl
  queue _ _ := id
  moments _ := by simp only [Timeline.moments, journal]
  slots := (Places.nothing rfl rfl rfl : w.Places [] w).still journal rfl

/-- Reporting something that has nothing to do with contents and slots. -/
theorem note (w : EventLoop) {event : Event} (unlabelled : event.labelled = none)
    (plain : event.Plain) : w.Aside (w.note event) where
  now := rfl
  used := rfl
  tasks := rfl
  queue _ _ := id
  moments cell := (w.timeline.moments_note cell event).trans (by simp [Event.about, unlabelled])
  slots := .note w plain

/-- The registry hands out what is ready, or is given up when nothing is on its way. -/
theorem registry (w : EventLoop) {registry : Registry} (next : registry.next = w.registry.next)
    (tasks : registry.tasks = w.registry.tasks)
    (queue : w.registry.tasks = [] ∨ registry.queue = w.registry.queue) :
    w.Aside { w with registry } := by
  refine ⟨rfl, rfl, tasks, fun task here isWoken => ?_, fun _ => rfl, .nothing rfl rfl next⟩
  obtain idle | same := queue
  · rw [idle] at here
    cases here
  · exact same ▸ isWoken

/-- An answer of the registry is recorded. -/
theorem answered (w : EventLoop) (answers : List Answer) : w.Aside { w with answers } :=
  ⟨rfl, rfl, rfl, fun _ _ => id, fun _ => rfl, .nothing rfl rfl rfl⟩

end Aside

/-- Asking the registry for the next patch. -/
theorem drain_aside (w : EventLoop) : w.Aside w.drain.2 := by
  have handsOut : w.registry.drain.2.next = w.registry.next ∧
      w.registry.drain.2.tasks = w.registry.tasks ∧
        w.registry.drain.2.queue = w.registry.queue := by
    unfold Registry.drain
    split
    · exact ⟨rfl, rfl, rfl⟩
    · split <;> exact ⟨rfl, rfl, rfl⟩
  have asked := Aside.registry w handsOut.1 handsOut.2.1 (.inr handsOut.2.2)
  unfold drain
  split <;> rename_i answered <;> rw [answered] at asked
  · rename_i item _
    have recorded := asked.trans (.answered _ (w.answers ++ [.item item]))
    unfold handOut
    split
    · exact recorded.trans (.note _ rfl ⟨rfl, rfl⟩)
    · exact recorded
  · exact asked.trans (.answered _ _)

end EventLoop

/-- Asking a sequence for its next item. -/
theorem Sequence.poll_aside (s : Sequence) (w : EventLoop) : w.Aside (s.poll w).2.2 := by
  cases s with
  | patches => exact w.drain_aside
  | supply s =>
    have pulled : w.Aside { w with timeline := s.ask w.timeline } := by
      unfold Supply.ask
      split
      · exact .refl w
      · exact .note w rfl ⟨rfl, rfl⟩
    exact pulled.trans
      (.timeline _ ((s.poll_now w.timeline).trans pulled.now.symm) (s.journal_poll w.timeline))

theorem Sequence.aside_of_poll {s s' : Sequence} {answer : Answer} {w w' : EventLoop}
    (asked : s.poll w = (answer, s', w')) : w.Aside w' := by
  have aside := s.poll_aside w
  rwa [asked] at aside

/-- A sequence that has come to its end is given up.  If it brought the patches, nothing is on its way
    then. -/
theorem Sequence.exhausted_aside {s s' : Sequence} {w w' : EventLoop}
    (asked : s.poll w = (.finished, s', w'))
    (shut : w.registry.drain.1 = .finished → w.registry.tasks = []) :
    w.Aside (s'.release w') ∧
      ((s'.release w').registry.drain.1 = .finished → (s'.release w').registry.tasks = []) := by
  have aside := aside_of_poll asked
  cases s with
  | supply s =>
    simp only [poll, Prod.mk.injEq] at asked
    obtain ⟨-, rfl, rfl⟩ := asked
    exact ⟨aside, shut⟩
  | patches =>
    obtain ⟨drained, rfl⟩ := Sequence.patches_poll asked
    have finished := w.drain_registry.1
    rw [drained] at finished
    have idle : w.registry.tasks = [] := shut finished.symm
    refine ⟨aside.trans (.registry w' rfl ?_ (.inl ?_)), fun _ => rfl⟩
    · exact (aside.tasks.trans idle).symm
    · exact aside.tasks.trans idle

/-- What an answer does besides letting the given renderings go on: some of them are over and have been
    passed, the others fill what is left of the stream; nothing else concerns contents. -/
structure Polled.Leaves {σ : Type} (stream : σ → TemplateStream) (parts : List Rendering)
    (w : EventLoop) (answer : StreamPoll σ) (w' : EventLoop) : Prop where
  aside : w.Aside w'
  passed : ∀ next, answer.next? = some next →
    ∃ passed, parts = passed ++ Piece.renderings (stream next).pieces ∧ ∀ r ∈ passed, r.isOver

namespace Polled.Leaves

variable {σ : Type} {stream : σ → TemplateStream} {r : Rendering} {parts : List Rendering}
  {w w' w'' : EventLoop} {answer : StreamPoll σ}

/-- All renderings are left. -/
theorem all {next : σ} (aside : w.Aside w') (onward : answer.next? = some next)
    (left : parts = Piece.renderings (stream next).pieces) : Leaves stream parts w answer w' := by
  refine ⟨aside, fun other same => ⟨[], ?_, by simp⟩⟩
  obtain rfl : next = other := Option.some.inj (onward.symm.trans same)
  exact left

/-- Something else happens first. -/
theorem after (aside : w.Aside w') (leaves : Leaves stream parts w' answer w'') :
    Leaves stream parts w answer w'' :=
  ⟨aside.trans leaves.aside, leaves.passed⟩

/-- A rendering is passed first. -/
theorem pass (ended : r.isOver) (leaves : Leaves stream parts w answer w') :
    Leaves stream (r :: parts) w answer w' := by
  refine ⟨leaves.aside, fun next onward => ?_⟩
  obtain ⟨passed, rfl, areOver⟩ := leaves.passed next onward
  exact ⟨r :: passed, rfl, by simpa using ⟨ended, areOver⟩⟩

end Polled.Leaves

namespace TemplateStream

variable {pieces : List Piece} {position : Nat} {w : EventLoop}
  {result : StreamPoll TemplateStream × EventLoop}

/-- Walking over pieces passes renderings that are over. -/
theorem Walks.leaves (walks : Walks pieces position w result)
    (shut : w.registry.drain.1 = .finished → w.registry.tasks = []) :
    Polled.Leaves id (Piece.renderings pieces) w result.1 result.2 := by
  induction walks with
  | ended | pending => exact .all (.refl _) rfl rfl
  | blank isBlank _ ih =>
    cases isBlank with
    | segment | absent | text => exact ih shut
    | markup => exact .pass rfl (ih shut)
  | written isWritten rest position w =>
    cases isWritten with
    | segment | text => exact .all (.refl w) rfl rfl
    | markup => exact .pass rfl (.all (.refl w) rfl rfl)
  | failed error rest position w => exact .pass rfl (.all (.note w rfl ⟨rfl, rfl⟩) rfl rfl)
  | item asked | waiting asked => exact .all (Sequence.aside_of_poll asked) rfl rfl
  | @error _ _ _ _ w' asked =>
    exact .all ((Sequence.aside_of_poll asked).trans (.note w' rfl ⟨rfl, rfl⟩)) rfl rfl
  | finished asked _ ih =>
    obtain ⟨aside, still⟩ := Sequence.exhausted_aside asked shut
    exact .after aside (ih still)

/-- A rendering that does not fail does not panic. -/
theorem not_panicked {r : Rendering} (sound : r.fails = false) (message : String) :
    r ≠ .panicked message := by
  rintro rfl
  cases sound

/-- Where no rendering fails, all renderings go on, and everything else stays. -/
theorem drives_of_unfailing (settled : Bool)
    (calm : Unfailing (askedOfAll false settled (Piece.renderings pieces) w)) : ∃ left,
    Drives pieces w left (pollAll false settled (Piece.renderings pieces) w).2 ∧
      Piece.renderings left = (pollAll false settled (Piece.renderings pieces) w).1 ∧
      (∀ r ∈ Piece.renderings left, r.fails = false) ∧
      ∀ piece ∈ left, piece.rendering? = none → piece ∈ pieces := by
  induction pieces generalizing settled w with
  | nil => exact ⟨[], .nil w, rfl, by simp [Piece.renderings], by simp⟩
  | cons piece rest ih =>
    obtain ⟨r, rfl⟩ | ⟨unfilled, others⟩ := piece.rendering_cases
    · rw [Piece.renderings_cons_rendering] at calm ⊢
      -- This rendering does not fail, so those behind it are asked as well.
      have soundHere := calm.head.sound
      obtain ⟨settledNext, polled, asks⟩ := pollAll_cons_of_unfailing calm
      rw [asks, Unfailing.unfailing_append] at calm
      obtain ⟨left, drives, parts, sound, same⟩ := ih settledNext calm.2
      rw [polled]
      refine ⟨_, .rendering (not_panicked soundHere) drives, ?_, ?_, fun other member unlike => ?_⟩
      · rw [Piece.renderings_cons_rendering, parts]
      · rw [Piece.renderings_cons_rendering]
        exact List.forall_mem_cons.2 ⟨soundHere, sound⟩
      · obtain rfl | later := List.mem_cons.1 member
        · cases unlike
        · exact List.mem_cons_of_mem _ (same other later unlike)
    · rw [others] at calm ⊢
      obtain ⟨left, drives, parts, sound, same⟩ := ih settled calm
      refine ⟨_, .other unfilled drives, (others left).trans parts, others left ▸ sound,
        fun other member unlike => ?_⟩
      obtain rfl | later := List.mem_cons.1 member
      · exact List.mem_cons_self
      · exact List.mem_cons_of_mem _ (same other later unlike)

/-- Where no rendering has failed and the only sequence is that of the patches, of which none is an error,
    no error comes. -/
theorem Walks.clean (walks : Walks pieces position w result)
    (sound : ∀ r ∈ Piece.renderings pieces, r.fails = false)
    (patchesOnly : ∀ s, .slot (some (.sequence s)) ∈ pieces → s = .patches)
    (ready : ∀ error, .error error ∉ w.registry.ready) :
    (∀ error, .error error ∉ result.1.items) ∧ ∀ error, .error error ∉ result.2.registry.ready := by
  induction walks with
  | ended | written | pending => exact ⟨by simp [Polled.items], ready⟩
  | blank _ _ ih =>
    exact ih (fun r member => sound r (Piece.mem_renderings_cons member))
      (fun s member => patchesOnly s (List.mem_cons_of_mem _ member)) ready
  | failed error => simpa [fails] using sound (.failed error) List.mem_cons_self
  | @item s _ _ _ _ asked | @waiting s _ _ _ asked =>
    obtain rfl := patchesOnly s List.mem_cons_self
    -- What the patches bring was ready, and so was what is left.
    have split := EventLoop.ready_of_drain (Sequence.patches_poll asked).1
    refine ⟨by simp [Polled.items], fun error member => ready error ?_⟩
    rw [split]
    exact List.mem_append_right _ member
  | @error s _ error _ _ asked =>
    obtain rfl := patchesOnly s List.mem_cons_self
    have split := EventLoop.ready_of_drain (Sequence.patches_poll asked).1
    exact absurd (split ▸ List.mem_cons_self) (ready error)
  | @finished s _ _ _ _ _ _ asked _ ih =>
    obtain rfl := patchesOnly s List.mem_cons_self
    obtain ⟨-, rfl⟩ := Sequence.patches_poll asked
    refine ih sound (fun s member => patchesOnly s (List.mem_cons_of_mem _ member)) ?_
    exact fun error => List.not_mem_nil

/-- A stream that is asked for a chunk lets its renderings go on. -/
theorem poll_leaves (s : TemplateStream) (w : EventLoop) (sound : s.finished → s.pieces = [])
    (calm : Unfailing (s.asked w))
    (shut : let went := (pollAll false false (Piece.renderings s.pieces) w).2
      went.registry.drain.1 = .finished → went.registry.tasks = []) :
    Polled.Leaves id (pollAll false false (Piece.renderings s.pieces) w).1
      (pollAll false false (Piece.renderings s.pieces) w).2 (s.poll w).1 (s.poll w).2 := by
  cases goesOn : s.finished with
  | true =>
    rw [poll_of_finished goesOn, sound goesOn]
    exact .all (.refl w) rfl (by rw [id, sound goesOn]; rfl)
  | false =>
    rw [asked, if_neg (goesOn ▸ Bool.false_ne_true)] at calm
    obtain ⟨left, drives, parts, -⟩ := drives_of_unfailing false calm
    rw [← parts]
    exact (drives.walks_poll goesOn).leaves shut

/-- No error comes where no rendering fails. -/
theorem poll_clean (s : TemplateStream) (w : EventLoop) (calm : Unfailing (s.asked w))
    (patchesOnly : ∀ q, .slot (some (.sequence q)) ∈ s.pieces → q = .patches)
    (ready : ∀ error, .error error ∉ w.registry.ready) :
    (∀ error, .error error ∉ (s.poll w).1.items) ∧
      ∀ error, .error error ∉ (s.poll w).2.registry.ready := by
  cases goesOn : s.finished with
  | true =>
    rw [poll_of_finished goesOn]
    exact ⟨by simp [Polled.items], ready⟩
  | false =>
    rw [asked, if_neg (goesOn ▸ Bool.false_ne_true)] at calm
    obtain ⟨left, drives, -, sound, others⟩ := drives_of_unfailing false calm
    refine (drives.walks_poll goesOn).clean sound (fun q member => ?_) ?_
    · exact patchesOnly q (others _ member rfl)
    · rw [(pollAll_atOnce false false (Piece.renderings s.pieces) w).ready]
      exact ready

end TemplateStream

namespace Document

/-- What a document reports about its chunks does not concern contents. -/
theorem record_leaves (d : Document) {parts : List Rendering} {w : EventLoop}
    {result : StreamPoll TemplateStream × EventLoop}
    (leaves : Polled.Leaves id parts w result.1 result.2) :
    Polled.Leaves Document.stream parts w (d.record result).1 (d.record result).2 := by
  obtain ⟨aside, passed⟩ := leaves
  match result, passed with
  | (.ready none s, w'), passed =>
    refine ⟨aside.trans (.note w' rfl ⟨rfl, rfl⟩), fun next onward => ?_⟩
    obtain rfl := Option.some.inj onward
    exact passed s rfl
  | (.ready (some (.ok _)) s, _), passed | (.ready (some (.error _)) s, _), passed
  | (.pending s, _), passed =>
    refine ⟨aside, fun next onward => ?_⟩
    obtain rfl := Option.some.inj onward
    exact passed s rfl
  | (.panicked _, _), _ => exact ⟨aside, fun next onward => by cases onward⟩

/-- A document passes on the items of its stream. -/
theorem record_items (d : Document) (result : StreamPoll TemplateStream × EventLoop) :
    (d.record result).1.items = result.1.items ∧
      (d.record result).2.registry = result.2.registry := by
  match result with
  | (.ready none _, _) | (.ready (some (.ok _)) _, _) | (.ready (some (.error _)) _, _)
  | (.pending _, _) | (.panicked _, _) => exact ⟨rfl, rfl⟩

/-- The renderings of a document, when they have gone on. -/
def went (d : Document) (w : EventLoop) : List Rendering × EventLoop :=
  pollAll false false (Piece.renderings d.stream.pieces) (w.behalf (journalName d.requestId))

/-- A document that is asked for a chunk lets its renderings go on. -/
theorem poll_leaves (d : Document) (w : EventLoop)
    (sound : d.stream.finished → d.stream.pieces = []) (calm : Unfailing (d.asked w))
    (shut : (d.went w).2.registry.drain.1 = .finished → (d.went w).2.registry.tasks = []) :
    Polled.Leaves Document.stream (d.went w).1 (d.went w).2 (d.poll w).1 (d.poll w).2 := by
  have polled := d.stream.poll_leaves (w.behalf (journalName d.requestId)) sound calm shut
  have recorded := d.record_leaves polled
  exact ⟨recorded.aside.trans (.timeline _ rfl rfl), recorded.passed⟩

/-- No error comes where no rendering fails. -/
theorem poll_clean (d : Document) (w : EventLoop) (calm : Unfailing (d.asked w))
    (patchesOnly : ∀ q, .slot (some (.sequence q)) ∈ d.stream.pieces → q = .patches)
    (ready : ∀ error, .error error ∉ w.registry.ready) :
    (∀ error, .error error ∉ (d.poll w).1.items) ∧
      ∀ error, .error error ∉ (d.poll w).2.registry.ready := by
  have polled := d.stream.poll_clean (w.behalf (journalName d.requestId)) calm patchesOnly ready
  obtain ⟨items, registry⟩ := d.record_items (d.stream.poll (w.behalf (journalName d.requestId)))
  rw [← items, ← registry] at polled
  exact polled

end Document

/-! ### Without failures -/

namespace Document

section

variable {settings : Settings} {body : Node} {w₀ w w' : EventLoop} {d next : Document}

/-- A stage of reading a document in which no error has come and none is ready. -/
def Undisturbed (settings : Settings) (body : Node) (w₀ : EventLoop) (d : Document)
    (w : EventLoop) : Prop :=
  ∃ h, toChunkStream.Run (start settings body w₀).1 (start settings body w₀).2 h d w ∧
    (∀ error, .error error ∉ History.yields h) ∧ ∀ error, .error error ∉ w.registry.ready

/-- What happens in the background brings nothing to the reader. -/
theorem Undisturbed.meanwhile (undisturbed : Undisturbed settings body w₀ d w)
    {new : List Happening} (moves : w.Meanwhile new w')
    (ready : ∀ error, .error error ∉ w'.registry.ready) : Undisturbed settings body w₀ d w' := by
  obtain ⟨h, run, clean, -⟩ := undisturbed
  have onward : ∃ h, toChunkStream.Run (start settings body w₀).1 (start settings body w₀).2 h d w' ∧
      ∀ error, .error error ∉ History.yields h := by
    refine moves.keeps (P := fun w => ∃ h, toChunkStream.Run (start settings body w₀).1
      (start settings body w₀).2 h d w ∧ ∀ error, .error error ∉ History.yields h)
      ⟨h, run, clean⟩ ?_
    rintro w new w' ⟨h, run, clean⟩ move
    exact ⟨_, run.background move, by simpa [move.yields] using clean⟩
  obtain ⟨h, run, clean⟩ := onward
  exact ⟨h, run, clean, ready⟩

/-- The only sequence of a document is that of its patches. -/
theorem Undisturbed.patchesOnly (bodyFirst : settings.compiled.BodyFirst) (fresh : w₀.registry = {})
    (undisturbed : Undisturbed settings body w₀ d w) {q : Sequence}
    (member : .slot (some (.sequence q)) ∈ d.stream.pieces) : q = .patches := by
  obtain ⟨h, run, clean, -⟩ := undisturbed
  obtain ⟨⟨passed, todo, outs, r, -, layout⟩, -⟩ := layout_of_run bodyFirst body fresh run clean
  obtain ⟨role, -, plays⟩ := forall₂_mem_right layout.plays member
  exact plays.of_sequence.2

/-- No error comes where no rendering fails. -/
theorem Undisturbed.poll (bodyFirst : settings.compiled.BodyFirst) (fresh : w₀.registry = {})
    (undisturbed : Undisturbed settings body w₀ d w) (calm : Unfailing (d.asked w))
    (onward : (d.poll w).1.next? = some next) :
    Undisturbed settings body w₀ next (d.poll w).2 := by
  have patchesOnly (q : Sequence) := undisturbed.patchesOnly (q := q) bodyFirst fresh
  obtain ⟨h, run, clean, ready⟩ := undisturbed
  obtain ⟨items, ready⟩ := d.poll_clean w calm patchesOnly ready
  refine ⟨_, run.poll rfl onward, ?_, ready⟩
  intro error
  simpa [EventLoop.handedInSince] using ⟨clean error, items error⟩

/-- Reading without pauses where no rendering fails. -/
theorem Consumes.undisturbed (bodyFirst : settings.compiled.BodyFirst) (fresh : w₀.registry = {})
    {asked : List (Rendering × EventLoop)}
    (consumes : Consumes (Document.start settings body w₀).1 (Document.start settings body w₀).2 asked d w)
    (calm : Unfailing asked) : Undisturbed settings body w₀ d w := by
  induction consumes with
  | start =>
    have empty : (Document.start settings body w₀).2.registry = {} :=
      (start_plays bodyFirst body w₀).2.2.trans fresh
    exact ⟨[], .start, by simp, by simp [empty]⟩
  | poll _ onward ih =>
    rw [Unfailing.unfailing_append] at calm
    exact (ih calm.1).poll bodyFirst fresh calm.2 onward
  | @turn asked d w _ ih =>
    rw [Unfailing.unfailing_append] at calm
    have undisturbed := ih calm.1
    obtain ⟨new, moves⟩ := w.runNext_meanwhile
    have ready := undisturbed.choose_spec.2.2
    exact undisturbed.meanwhile moves (EventLoop.runNext_clean calm.2 ready)
  | pass _ waits _ ahead ih =>
    rw [Unfailing.unfailing_append] at calm
    have undisturbed := (ih calm.1).poll bodyFirst fresh calm.2 (by rw [waits]; rfl)
    have ready := undisturbed.choose_spec.2.2
    exact undisturbed.meanwhile (.single (EventLoop.jump_background _ _ ahead)) ready

/-- What is in order at any time of reading a document, as long as no rendering fails. -/
structure InOrder (d : Document) (w : EventLoop) : Prop where
  /-- What the renderings hand in is taken in. -/
  taken : ∀ r ∈ Piece.renderings d.stream.pieces, r.TakenIn w
  /-- At the end nothing is left and nothing is on its way. -/
  ended : d.stream.finished → d.stream.pieces = [] ∧ w.registry.tasks = []
  /-- The registry has its books in order. -/
  reached : ∃ h, EventLoop.Reached h w

/-- Everything is in order all the time. -/
theorem Undisturbed.inOrder (bodyFirst : settings.compiled.BodyFirst) (fresh : w₀.registry = {})
    (undisturbed : Undisturbed settings body w₀ d w) : d.InOrder w := by
  obtain ⟨h, run, clean, -⟩ := undisturbed
  obtain ⟨⟨passed, todo, outs, r, -, layout⟩, sound⟩ :=
    layout_of_run bodyFirst body fresh run clean
  constructor
  case taken =>
    intro part member
    -- A rendering plays the body, or a source that hands in nothing.
    obtain ⟨role, isRole, plays⟩ := forall₂_mem_right layout.plays (Piece.mem_renderings.1 member)
    cases role with
    | segment | patches => simp [Role.Plays] at plays
    | plain =>
      obtain ⟨source, same, isPlain⟩ := plays
      obtain rfl : some (.rendering part) = source := by simpa using same
      exact .inl (isPlain _ rfl)
    | body => exact .inr (layout.stillOpen (layout.orderly.patches_of_body isRole))
  case ended =>
    intro finished
    have none := sound finished
    refine ⟨none, (layout.shut fun ahead => ?_).1⟩
    have plays := layout.plays
    rw [none] at plays
    obtain rfl := List.forall₂_nil_right_iff.1 plays
    cases ahead
  case reached => exact ⟨_, layout.course.reached⟩

end

end Document

end ProgressiveHtml
