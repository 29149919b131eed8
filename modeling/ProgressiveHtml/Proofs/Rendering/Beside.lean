import ProgressiveHtml.Proofs.Rendering.Asked
import ProgressiveHtml.Proofs.Rendering.Deadlines
import ProgressiveHtml.Proofs.Rendering.Stages

namespace ProgressiveHtml

/-!
# Renderings — going on beside a content

As long as a content is not used up, and again after it has been, a rendering that treats it in the
right way goes on without anything happening to it.  Each slot that it gives out meanwhile gets its
fallback.

* `Rendering.TakenIn` — what a rendering hands in is taken in;
* `EventLoop.Passes` — what has happened to a content meanwhile, and what was handed in;
* `Rendering.Treats.polls` — what happens when a rendering goes on from a stage.
-/

namespace Rendering

/-! ### What is handed in -/

/-- Whatever the rendering hands in is taken in. -/
def TakenIn (r : Rendering) (w : EventLoop) : Prop := r.Silent ∨ w.registry.closed = false

theorem silent_of_mem {parts : List Rendering} (silent : SilentAll parts) {part : Rendering}
    (member : part ∈ parts) : part.Silent := by
  obtain ⟨before, after, rfl⟩ := List.append_of_mem member
  exact (silentAll_middle.1 silent).2.1

namespace TakenIn

variable {r r' : Rendering} {w w' : EventLoop}

theorem later (taken : r.TakenIn w) (atOnce : w.AtOnce w') : r.TakenIn w' :=
  taken.imp_right fun stillOpen => atOnce.closed.trans stillOpen

theorem step {handed : List Registration} (taken : r.TakenIn w) (step : r.Step w handed r' w') :
    r'.TakenIn w' := by
  obtain silent | stillOpen := taken
  · exact .inl (silent.step step).2
  · exact .inr (step.closed.trans stillOpen)

/-- A fragment that is handed in is taken in. -/
theorem register {content next : Nat → Rendering} (taken : (register content next).TakenIn w) :
    w.registry.closed = false :=
  taken.resolve_left id

end TakenIn

end Rendering

namespace EventLoop

open Rendering

/-- The slots that were given out from a state to a later one, each at the instant when a fallback was
    called for it.  They are numbered in a row. -/
structure Places (given : List Placement) (w w' : EventLoop) : Prop where
  registrations : w'.timeline.registrations =
    w.timeline.registrations ++ given.map fun p => (p.time, p.slot)
  placements : w'.timeline.placements = w.timeline.placements ++ given
  numbered : given.map (·.slot) = List.range' w.registry.next given.length
  next : w'.registry.next = w.registry.next + given.length

namespace Places

variable {given later : List Placement} {w w' w'' : EventLoop}

/-- No slot was given out. -/
theorem nothing (registrations : w'.timeline.registrations = w.timeline.registrations)
    (placements : w'.timeline.placements = w.timeline.placements)
    (next : w'.registry.next = w.registry.next) : w.Places [] w' :=
  ⟨by simpa using registrations, by simpa using placements, rfl, next⟩

/-- An event that has nothing to do with slots. -/
theorem note (w : EventLoop) {event : Event} (plain : event.Plain) : w.Places [] (w.note event) :=
  .nothing ((w.timeline.registrations_note event).trans (by simp [plain.1]))
    ((w.timeline.placements_note event).trans (by simp [plain.2])) rfl

theorem trans (first : w.Places given w') (second : w'.Places later w'') :
    w.Places (given ++ later) w'' where
  registrations := by
    rw [second.registrations, first.registrations, List.map_append, List.append_assoc]
  placements := by rw [second.placements, first.placements, List.append_assoc]
  numbered := by
    rw [List.map_append, first.numbered, second.numbered, first.next, List.range'_append_1,
      List.length_append]
  next := by rw [second.next, first.next, List.length_append, Nat.add_assoc]

/-- Nothing is written to the journal after that, and no slot is given out. -/
theorem still (places : w.Places given w') (journal : w''.timeline.journal = w'.timeline.journal)
    (next : w''.registry.next = w'.registry.next) : w.Places given w'' where
  registrations := by simpa only [Timeline.registrations, journal] using places.registrations
  placements := by simpa only [Timeline.placements, journal] using places.placements
  numbered := places.numbered
  next := next.trans places.next

end Places

/-- What has happened to a content from a state to a later one at the same instant.  No other fragment
    that was handed in meanwhile has to do with it, and each slot that was given out got its
    fallback. -/
structure Passes (cell : Nat) (gone : Multiset (Nat × Moment)) (w w' : EventLoop) : Prop where
  atOnce : w.AtOnce w'
  moments : w'.timeline.moments cell = w.timeline.moments cell + gone
  tasks : ∃ new, w'.registry.tasks = w.registry.tasks ++ new ∧
    ∀ task ∈ new, task.work.Treats cell .apart
  slots : ∃ given, w.Places given w'

namespace Passes

variable {cell : Nat} {gone later : Multiset (Nat × Moment)} {w w' w'' : EventLoop}

theorem refl (cell : Nat) (w : EventLoop) : w.Passes cell 0 w where
  atOnce := .refl w
  moments := (add_zero _).symm
  tasks := ⟨[], by simp⟩
  slots := ⟨[], .nothing rfl rfl rfl⟩

theorem trans (first : w.Passes cell gone w') (second : w'.Passes cell later w'') :
    w.Passes cell (gone + later) w'' where
  atOnce := first.atOnce.trans second.atOnce
  moments := by rw [second.moments, first.moments, add_assoc]
  tasks := by
    obtain ⟨new, same, apart⟩ := first.tasks
    obtain ⟨more, sameLater, apartLater⟩ := second.tasks
    refine ⟨new ++ more, by rw [sameLater, same, List.append_assoc], fun task member => ?_⟩
    exact (List.mem_append.1 member).elim (apart task) (apartLater task)
  slots := by
    obtain ⟨given, places⟩ := first.slots
    obtain ⟨more, placesLater⟩ := second.slots
    exact ⟨given ++ more, places.trans placesLater⟩

/-- Nothing happens to the content before something does. -/
theorem before (first : w.Passes cell 0 w') (second : w'.Passes cell later w'') :
    w.Passes cell later w'' :=
  zero_add later ▸ first.trans second

/-- An event that has nothing to do with slots. -/
theorem note (cell : Nat) (w : EventLoop) {event : Event} (plain : event.Plain) :
    w.Passes cell (Moment.at w.now (event.about cell)) (w.note event) where
  atOnce := (Step.note event (.done "") w).atOnce
  moments := w.timeline.moments_note cell event
  tasks := ⟨[], by simp⟩
  slots := ⟨[], .note w plain⟩

/-- Asking something that only writes to the journal. -/
theorem timeline {timeline : Timeline} (now : timeline.now = w.now)
    (moments : timeline.moments cell = w.timeline.moments cell + gone)
    (slots : timeline.registrations = w.timeline.registrations ∧
      timeline.placements = w.timeline.placements) :
    w.Passes cell gone { w with timeline } where
  atOnce := .timeline w now
  moments := moments
  tasks := ⟨[], by simp⟩
  slots := ⟨[], .nothing slots.1 slots.2 rfl⟩

/-- Something that is not written to the journal. -/
theorem silently (atOnce : w.AtOnce w') (timeline : w'.timeline = w.timeline)
    (registry : w'.registry = w.registry) : w.Passes cell 0 w' where
  atOnce := atOnce
  moments := by rw [timeline, add_zero]
  tasks := ⟨[], by simp [registry]⟩
  slots := ⟨[], .nothing (by rw [timeline]) (by rw [timeline]) (by rw [registry])⟩

/-- What asking a value writes down about a content. -/
theorem pace (cell : Nat) (w : EventLoop) (pace : Pace) :
    w.Passes cell
      (Moment.at w.now (if pace.begun then none else (Event.started pace.label).about cell) +
        Moment.at w.now (if (pace.poll w.timeline).1 = none then
          (Event.settled pace.label).about cell else none))
      { w with timeline := (pace.poll w.timeline).2 } :=
  timeline (pace.poll_now w.timeline) (pace.moments_poll cell w.timeline)
    (pace.slots_poll w.timeline)

/-- What asking a race writes down about a content. -/
theorem race (cell : Nat) (w : EventLoop) (r : Race) :
    w.Passes cell
      (Moment.at w.now (if r.pace.begun then none else (Event.started r.pace.label).about cell) +
        Moment.at w.now (if (r.poll w.timeline).1 = .settled then
          (Event.settled r.pace.label).about cell else none))
      { w with timeline := (r.poll w.timeline).2 } :=
  timeline (r.poll_now w.timeline) (r.moments_poll cell w.timeline) (r.slots_poll w.timeline)

/-- A fragment is taken in, and its fallback is called. -/
theorem handIn (cell : Nat) (content : Nat → Rendering) (stillOpen : w.registry.closed = false)
    (label : Label) :
    let after := (w.register content).2.note (.fallback label w.registry.next)
    w.AtOnce after ∧
      after.timeline.moments cell = w.timeline.moments cell +
        Moment.at w.now ((Event.fallback label w.registry.next).about cell) ∧
      after.registry.tasks = w.registry.tasks ++ [⟨w.registry.next, content w.registry.next⟩] ∧
      ∃ given, w.Places given after := by
  intro after
  have journal : after.timeline = (w.timeline.note (.notice (.registered w.registry.next
      (w.registry.pending + 1)))).note (.fallback label w.registry.next) := by
    simp only [after, register, Registry.registrationNotice, stillOpen]
    rfl
  refine ⟨?_, ?_, ?_, [⟨w.now, label, w.registry.next⟩], ?_, ?_, rfl, ?_⟩
  · exact (AtOnce.register w content).trans (Step.note _ (.done "") _).atOnce
  · rw [journal, Timeline.moments_note, Timeline.moments_note]
    simp [Event.about, Event.labelled, now]
  · simp [after, Registry.register, stillOpen]
  · simp [journal, Event.registered?, now]
  · simp [journal, Event.placed?, now]
  · exact w.registry.register_next content

/-- The fragment of another content is taken in, and its fallback is called. -/
theorem handInOther {content : Nat → Rendering} (stillOpen : w.registry.closed = false)
    {label : Label} (other : label.cell ≠ some cell)
    (apart : (content w.registry.next).Treats cell .apart) :
    w.Passes cell 0 ((w.register content).2.note (.fallback label w.registry.next)) := by
  obtain ⟨atOnce, moments, tasks, slots⟩ :=
    handIn cell content stillOpen label
  have silent : (Event.fallback label w.registry.next).about cell = none :=
    Event.about_other rfl other
  rw [silent] at moments
  exact ⟨atOnce, moments, ⟨_, tasks, by simpa using apart⟩, slots⟩

/-- Asking for the value of another content. -/
theorem paceOther {pace : Pace} (other : pace.label.cell ≠ some cell) :
    w.Passes cell 0 { w with timeline := (pace.poll w.timeline).2 } := by
  have started : (Event.started pace.label).about cell = none := Event.about_other rfl other
  have settled : (Event.settled pace.label).about cell = none := Event.about_other rfl other
  have passes := Passes.pace cell w pace
  simpa only [started, settled, ite_self, Moment.at_none, add_zero] using passes

theorem raceOther {r : Race} (other : r.pace.label.cell ≠ some cell) :
    w.Passes cell 0 { w with timeline := (r.poll w.timeline).2 } := by
  have started : (Event.started r.pace.label).about cell = none := Event.about_other rfl other
  have settled : (Event.settled r.pace.label).about cell = none := Event.about_other rfl other
  have passes := Passes.race cell w r
  simpa only [started, settled, ite_self, Moment.at_none, add_zero] using passes

end Passes

end EventLoop

namespace Rendering

open EventLoop

/-! ### Going on -/

/-- The content is not used up between two states. -/
def Unclaimed (cell : Nat) (w w' : EventLoop) : Prop := cell ∈ w.used ∨ cell ∉ w'.used

theorem Unclaimed.first {cell : Nat} {w w' w'' : EventLoop} (unclaimed : Unclaimed cell w w'')
    (second : w'.AtOnce w'') : Unclaimed cell w w' :=
  unclaimed.imp_right fun unused used => unused (second.used used)

theorem Unclaimed.second {cell : Nat} {w w' w'' : EventLoop} (unclaimed : Unclaimed cell w w'')
    (first : w.AtOnce w') : Unclaimed cell w' w'' :=
  unclaimed.imp_left fun used => first.used used

/-- How a rendering goes on in a state: `shown` happens to the content at once, and then nothing does
    unless it is used up. -/
def PollsIn (cell : Nat) (shown : Option Moment) (r : Rendering) (w : EventLoop) : Prop :=
  r.TakenIn w → Unclaimed cell w (r.poll w).2 →
    (r.poll w).1.Treats cell .apart ∧ w.Passes cell (Moment.at w.now shown) (r.poll w).2

/-- How a rendering goes on in every state. -/
def Polls (cell : Nat) (shown : Option Moment) (r : Rendering) : Prop := ∀ w, r.PollsIn cell shown w

namespace PollsIn

variable {cell : Nat} {shown : Option Moment} {r r' : Rendering} {w w' : EventLoop}

/-- A rendering stops. -/
theorem stop (polled : r.poll w = (r', w)) (treats : r'.Treats cell .apart) :
    r.PollsIn cell none w := by
  intro _ _
  rw [polled]
  exact ⟨treats, .refl cell w⟩

/-- A rendering goes on with another one after nothing has happened to the content. -/
theorem after (polled : r.poll w = r'.poll w') (passes : w.Passes cell 0 w')
    (taken : r.TakenIn w → r'.TakenIn w') (onward : r'.PollsIn cell shown w') :
    r.PollsIn cell shown w := by
  intro isTaken unclaimed
  rw [polled] at unclaimed ⊢
  obtain ⟨treats, later⟩ := onward (taken isTaken) (unclaimed.second passes.atOnce)
  rw [passes.atOnce.now] at later
  exact ⟨treats, passes.before later⟩

/-- A rendering does one step and goes on. -/
theorem step (step : r.Step w [] r' w') (polled : r.poll w = r'.poll w')
    (passes : w.Passes cell 0 w') (onward : r'.PollsIn cell shown w') : r.PollsIn cell shown w :=
  after polled passes (fun taken => taken.step step) onward

end PollsIn

/-- Siblings go on. -/
theorem pollAll_apart {cell : Nat} (prompt settled : Bool) {parts : List Rendering} {w : EventLoop}
    (treats : ∀ part ∈ parts, part.Treats cell .apart)
    (polls : ∀ part ∈ parts, part.Polls cell none) (taken : ∀ part ∈ parts, part.TakenIn w)
    (unclaimed : Unclaimed cell w (pollAll prompt settled parts w).2) :
    (∀ part ∈ (pollAll prompt settled parts w).1, part.Treats cell .apart) ∧
      w.Passes cell 0 (pollAll prompt settled parts w).2 := by
  induction parts generalizing settled w with
  | nil => exact ⟨treats, .refl cell w⟩
  | cons part rest ih =>
    have here := polls part List.mem_cons_self w (taken part List.mem_cons_self)
    have atOnce := part.poll_atOnce w
    rw [pollAll_cons] at unclaimed ⊢
    -- A sibling that ends the group leaves the others as they were.
    split <;> rename_i ends
    · rw [if_pos ends] at unclaimed
      obtain ⟨treatsPart, passes⟩ := here unclaimed
      refine ⟨fun other member => ?_, passes⟩
      obtain rfl | later := List.mem_cons.1 member
      · exact treatsPart
      · exact treats other (List.mem_cons_of_mem _ later)
    · rw [if_neg ends] at unclaimed
      have onward := pollAll_atOnce prompt (settled && (part.poll w).1.isDone) rest (part.poll w).2
      obtain ⟨treatsPart, passes⟩ := here (unclaimed.first onward)
      obtain ⟨treatsRest, passesRest⟩ := ih (settled && (part.poll w).1.isDone)
        (fun other member => treats other (List.mem_cons_of_mem _ member))
        (fun other member => polls other (List.mem_cons_of_mem _ member))
        (fun other member => (taken other (List.mem_cons_of_mem _ member)).later atOnce)
        (unclaimed.second atOnce)
      refine ⟨fun other member => ?_, passes.before passesRest⟩
      obtain rfl | later := List.mem_cons.1 member
      · exact treatsPart
      · exact treatsRest other later

/-- A group goes on. -/
theorem Polls.join {cell : Nat} {parts : List Rendering} {next : List String → Rendering}
    (treats : ∀ part ∈ parts, part.Treats cell .apart) (polls : ∀ part ∈ parts, part.Polls cell none)
    (treatsNext : ∀ texts, (next texts).Treats cell .apart)
    (pollsNext : ∀ texts, (next texts).Polls cell none) : (join parts next).Polls cell none := by
  intro w taken unclaimed
  have takenParts : ∀ part ∈ parts, part.TakenIn w := fun part member =>
    taken.imp_left fun silent => silent_of_mem silent.1 member
  have atOnce := pollAll_atOnce (isPrompt parts.length) true parts w
  have siblings := pollAll_apart (isPrompt parts.length) true treats polls takenParts (w := w)
  rw [poll_join] at unclaimed ⊢
  cases stands : verdict (pollAll (isPrompt parts.length) true parts w).1 <;>
    rw [stands] at unclaimed
  case complete texts =>
    have takenNext : (next texts).TakenIn (pollAll (isPrompt parts.length) true parts w).2 :=
      (taken.imp_left fun silent => silent.2 texts).imp_right atOnce.closed.trans
    obtain ⟨-, passes⟩ := siblings (unclaimed.first ((next texts).poll_atOnce _))
    obtain ⟨treatsLeft, later⟩ := pollsNext texts _ takenNext (unclaimed.second atOnce)
    exact ⟨treatsLeft, passes.before later⟩
  case failed error => exact ⟨.failed error, (siblings unclaimed).2⟩
  case panicked message => exact ⟨.panicked message, (siblings unclaimed).2⟩
  case waiting => exact ⟨.join (siblings unclaimed).1 treatsNext, (siblings unclaimed).2⟩

/-- An attempt goes on. -/
theorem Polls.attempt {cell : Nat} {body : Rendering} {next : Except RenderError String → Rendering}
    (polls : body.Polls cell none) (treatsNext : ∀ result, (next result).Treats cell .apart)
    (pollsNext : ∀ result, (next result).Polls cell none) :
    (attempt body next).Polls cell none := by
  intro w taken unclaimed
  have here := polls w (taken.imp_left And.left)
  have atOnce := body.poll_atOnce w
  -- The body is over, with a markup or an error, and the attempt goes on with that.
  have onward (result : Except RenderError String)
      (unclaimed : Unclaimed cell w ((next result).poll (body.poll w).2).2) :
      ((next result).poll (body.poll w).2).1.Treats cell .apart ∧
        w.Passes cell 0 ((next result).poll (body.poll w).2).2 := by
    have takenNext : (next result).TakenIn (body.poll w).2 :=
      (taken.imp_left fun silent => silent.2 result).imp_right atOnce.closed.trans
    obtain ⟨-, passes⟩ := here (unclaimed.first ((next result).poll_atOnce _))
    obtain ⟨treatsLeft, later⟩ := pollsNext result _ takenNext (unclaimed.second atOnce)
    exact ⟨treatsLeft, passes.before later⟩
  rw [poll_attempt] at unclaimed ⊢
  generalize (body.poll w).1 = left at here unclaimed
  cases left with
  | done markup => exact onward (.ok markup) unclaimed
  | failed error => exact onward (.error error) unclaimed
  | panicked message => exact ⟨.panicked message, (here unclaimed).2⟩
  | _ => exact ⟨.attempt (here unclaimed).1 treatsNext, (here unclaimed).2⟩

namespace Treats

variable {cell : Nat} {stage : Stage} {r : Rendering}

/-- A fragment that has got a slot has nothing to do before its fallback is called. -/
theorem place_inv {own : Prop} {slot : Nat} (treats : Treats cell (.placing own slot) r) :
    ∃ label next, r = Rendering.note (.fallback label slot) next ∧
      (label.cell = some cell ↔ own) ∧ Treats cell .apart next := by
  cases treats with
  | place named onward => exact ⟨_, _, rfl, named, onward⟩

/-- What happens to a content when a rendering goes on from a stage. -/
theorem polls (treats : Treats cell stage r) :
    match stage with
    | .apart => r.Polls cell none
    | .settled shown => r.Polls cell shown
    | .placing own slot => ∃ label next, r = Rendering.note (.fallback label slot) next ∧
        (label.cell = some cell ↔ own) ∧ Treats cell .apart next ∧ next.Polls cell none
    | _ => True := by
  induction treats with
  | done markup => exact fun w => .stop rfl (.done markup)
  | failed error => exact fun w => .stop rfl (.failed error)
  | panicked message => exact fun w => .stop rfl (.panicked message)
  | @note event next other plain onward ih =>
    intro w
    have passes := Passes.note cell w plain
    rw [other] at passes
    exact .step (.note event next w) rfl passes (ih _)
  | @claimOther other next isOther onward ih =>
    intro w
    by_cases used : other ∈ w.used
    · exact .stop (by simp [poll, used]) (.failed .consumed)
    · exact .step (.claim used next) (by simp [poll, used])
        (.silently (Step.claim used next).atOnce rfl rfl) (ih _)
  | @claim next onward =>
    intro w
    by_cases used : cell ∈ w.used
    · exact .stop (by simp [poll, used]) (.failed .consumed)
    · -- The content would be used up.
      intro _ unclaimed
      have polled : (Rendering.claim cell next).poll w =
          next.poll { w with used := cell :: w.used } := by
        simp [poll, used]
      rw [polled] at unclaimed
      have kept := (next.poll_atOnce { w with used := cell :: w.used }).used List.mem_cons_self
      exact absurd kept (unclaimed.resolve_left used)
  | @number size next onward ih =>
    intro w
    exact .step (.number size next w) rfl (.silently (Step.number size next w).atOnce rfl rfl)
      (ih _ _)
  | @outstanding next onward ih =>
    intro w
    exact .step (.outstanding next w) rfl (.refl cell w) (ih _ _)
  | @register content next handed onward _ ih =>
    -- The fragment of another content gets a slot, and its placeholder is put in its place at once.
    intro w taken
    obtain ⟨label, rest, placing, named, -, pollsRest⟩ := ih w.registry.next
    have passes := Passes.handInOther taken.register named.1
      (handed w.registry.next)
    have polled : (Rendering.register content next).poll w =
        rest.poll ((w.register content).2.note (.fallback label w.registry.next)) := by
      rw [poll, EventLoop.register_fst, placing, poll]
    exact PollsIn.after polled passes (fun _ => .inr (passes.atOnce.closed.trans taken.register))
      (pollsRest _) taken
  | @wait pace next other onward ih =>
    intro w
    have passes := Passes.paceOther (w := w) other
    rcases asked : pace.poll w.timeline with ⟨_ | left, timeline⟩ <;> rw [asked] at passes
    · exact .step (.settle asked next) (by simp [poll, asked]) passes (ih _)
    · intro _ _
      have polled : (Rendering.wait pace next).poll w =
          (Rendering.wait left next, { w with timeline }) := by
        simp [poll, asked]
      rw [polled]
      exact ⟨.wait (Pace.label_of_poll asked ▸ other) onward, passes⟩
  | @race r inTime late other ofInTime ofLate ihInTime ihLate =>
    intro w
    have passes := Passes.raceOther (w := w) other
    rcases asked : r.poll w.timeline with ⟨_ | pace | left, timeline⟩ <;> rw [asked] at passes
    · exact .step (.inTime asked inTime late) (by simp [poll, asked]) passes (ihInTime _)
    · exact .step (.late asked inTime late) (by simp [poll, asked]) passes
        (ihLate pace (Race.label_of_poll (.inl asked)) _)
    · intro _ _
      have polled : (Rendering.race r inTime late).poll w =
          (Rendering.race left inTime late, { w with timeline }) := by
        simp [poll, asked]
      have label : left.pace.label = r.pace.label := Race.label_of_poll (.inr ⟨left.timer, asked⟩)
      rw [polled]
      exact ⟨.race (label ▸ other) ofInTime (fun pace same => ofLate pace (same.trans label)), passes⟩
  | join ofParts onward ihParts ih => exact .join ofParts ihParts onward ih
  | attempt ofBody onward ihBody ih => exact .attempt ihBody onward ih
  | ownWait | ownRace | handIn => trivial
  | nothing _ ih => exact ih
  | @report shown event next other plain onward ih =>
    intro w
    have passes := Passes.note cell w plain
    rw [other] at passes
    exact .step (.note event next w) rfl passes (ih _)
  | @shows moment event next about _ plain onward ih =>
    intro w taken unclaimed
    have passes := Passes.note cell w plain
    rw [about] at passes
    obtain ⟨treats, later⟩ := ih (w.note event) (taken.step (.note event next w))
      (unclaimed.second passes.atOnce)
    exact ⟨treats, add_zero (Moment.at w.now (some moment)) ▸ passes.trans later⟩
  | place named onward ih => exact ⟨_, _, rfl, named, onward, ih⟩

end Treats

end Rendering

end ProgressiveHtml
