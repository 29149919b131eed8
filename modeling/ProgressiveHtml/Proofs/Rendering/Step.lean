import ProgressiveHtml.EventLoop.Poll

namespace ProgressiveHtml

/-!
# Renderings — one step at a time

Asking a rendering to go on makes many small things happen: an event is noted, a content is used
up, a fragment is handed in, a sibling goes on.  `Rendering.Step` names each of them once, and
`Rendering.poll` is a sequence of such steps, so that what holds of every step holds of every poll.

* `Registration` — a fragment that was handed in, with the slot it got;
* `Rendering.Step`, `Rendering.Steps` — one step and several, with the fragments handed in;
* `Rendering.poll_steps` — a poll is a sequence of steps;
* `Rendering.Step.effect` — all that a step can do to the registry is to hand in a fragment.
-/

/-- A fragment that was handed to the registry: the slot it got, and its content. -/
structure Registration where
  slot : Nat
  content : Nat → Rendering

/-- The task that is made of a fragment that is handed in. -/
def Registration.task (given : Registration) : FragmentTask := ⟨given.slot, given.content given.slot⟩

/-- What a call of the registry hands in: the fragment, under the slot that the call returns. -/
def EventLoop.registration (w : EventLoop) (content : Nat → Rendering) : Registration :=
  ⟨(w.register content).1, content⟩

namespace Registry

@[simp] theorem register_next (r : Registry) (content : Nat → Rendering) :
    (r.register content).next = r.next + 1 := by
  unfold register
  split <;> rfl

@[simp] theorem register_closed (r : Registry) (content : Nat → Rendering) :
    (r.register content).closed = r.closed := by
  unfold register
  split <;> rfl

@[simp] theorem register_ready (r : Registry) (content : Nat → Rendering) :
    (r.register content).ready = r.ready := by
  unfold register
  split <;> rfl

theorem mem_register {r : Registry} {content : Nat → Rendering} {task : FragmentTask}
    (here : task ∈ (r.register content).tasks) :
    task ∈ r.tasks ∨ task = ⟨r.next, content r.next⟩ := by
  unfold register at here
  split at here
  · exact .inl here
  · simpa using here

end Registry

namespace Rendering

/-- One step of a rendering, and the fragments it hands in. -/
inductive Step : Rendering → EventLoop → List Registration → Rendering → EventLoop → Prop
  | note (event : Event) (next : Rendering) (w : EventLoop) :
      Step (note event next) w [] next (w.note event)
  | claim {cell : Nat} {w : EventLoop} (fresh : cell ∉ w.used) (next : Rendering) :
      Step (claim cell next) w [] next { w with used := cell :: w.used }
  | refuse {cell : Nat} {w : EventLoop} (used : cell ∈ w.used) (next : Rendering) :
      Step (claim cell next) w [] (failed .consumed) w
  | number (size : Nat) (next : Nat → Rendering) (w : EventLoop) :
      Step (number size next) w [] (next w.cells) { w with cells := w.cells + size }
  | outstanding (next : Nat → Rendering) (w : EventLoop) :
      Step (outstanding next) w [] (next w.registry.pending) w
  | register (content next : Nat → Rendering) (w : EventLoop) :
      Step (register content next) w [w.registration content] (next (w.register content).1)
        (w.register content).2
  /-- The value is still on its way. -/
  | wait {pace left : Pace} {timeline : Timeline} {w : EventLoop}
      (asked : pace.poll w.timeline = (some left, timeline)) (next : Rendering) :
      Step (wait pace next) w [] (wait left next) { w with timeline }
  /-- The value is there. -/
  | settle {pace : Pace} {timeline : Timeline} {w : EventLoop}
      (asked : pace.poll w.timeline = (none, timeline)) (next : Rendering) :
      Step (wait pace next) w [] next { w with timeline }
  /-- Neither the value nor the timer is there yet. -/
  | race {r left : Race} {timeline : Timeline} {w : EventLoop}
      (asked : r.poll w.timeline = (.running left, timeline)) (inTime : Rendering)
      (late : Pace → Rendering) :
      Step (race r inTime late) w [] (race left inTime late) { w with timeline }
  /-- The value was first. -/
  | inTime {r : Race} {timeline : Timeline} {w : EventLoop}
      (asked : r.poll w.timeline = (.settled, timeline)) (inTime : Rendering)
      (late : Pace → Rendering) : Step (race r inTime late) w [] inTime { w with timeline }
  /-- The timer was first. -/
  | late {r : Race} {pace : Pace} {timeline : Timeline} {w : EventLoop}
      (asked : r.poll w.timeline = (.timedOut pace, timeline)) (inTime : Rendering)
      (late : Pace → Rendering) : Step (race r inTime late) w [] (late pace) { w with timeline }
  /-- One of the siblings goes on. -/
  | part {part part' : Rendering} {handed : List Registration} {w w' : EventLoop}
      (step : Step part w handed part' w') (before after : List Rendering)
      (next : List String → Rendering) :
      Step (join (before ++ part :: after) next) w handed (join (before ++ part' :: after) next) w'
  /-- All siblings are there. -/
  | complete {parts : List Rendering} {markup : List String}
      (stands : verdict parts = .complete markup) (next : List String → Rendering)
      (w : EventLoop) : Step (join parts next) w [] (next markup) w
  /-- A sibling failed. -/
  | failPart {parts : List Rendering} {error : RenderError} (stands : verdict parts = .failed error)
      (next : List String → Rendering) (w : EventLoop) : Step (join parts next) w [] (failed error) w
  /-- A sibling panicked. -/
  | panicPart {parts : List Rendering} {message : String}
      (stands : verdict parts = .panicked message) (next : List String → Rendering)
      (w : EventLoop) : Step (join parts next) w [] (panicked message) w
  /-- The body of an attempt goes on. -/
  | body {body body' : Rendering} {handed : List Registration} {w w' : EventLoop}
      (step : Step body w handed body' w') (next : Except RenderError String → Rendering) :
      Step (attempt body next) w handed (attempt body' next) w'
  | succeed (markup : String) (next : Except RenderError String → Rendering) (w : EventLoop) :
      Step (attempt (done markup) next) w [] (next (.ok markup)) w
  | recover (error : RenderError) (next : Except RenderError String → Rendering) (w : EventLoop) :
      Step (attempt (failed error) next) w [] (next (.error error)) w
  | panicBody (message : String) (next : Except RenderError String → Rendering) (w : EventLoop) :
      Step (attempt (panicked message) next) w [] (panicked message) w

/-- All that a step can do to the registry is to hand in one fragment. -/
theorem Step.effect {r r' : Rendering} {w w' : EventLoop} {handed : List Registration}
    (step : Step r w handed r' w') :
    (handed = [] ∧ w'.registry = w.registry) ∨
      ∃ content, handed = [w.registration content] ∧ w' = (w.register content).2 := by
  induction step with
  | register content next w => exact .inr ⟨content, rfl, rfl⟩
  | part _ _ _ _ ih => exact ih
  | body _ _ ih => exact ih
  | _ => exact .inl ⟨rfl, rfl⟩

/-- No step closes a registry. -/
theorem Step.closed {r r' : Rendering} {w w' : EventLoop} {handed : List Registration}
    (step : Step r w handed r' w') : w'.registry.closed = w.registry.closed := by
  obtain ⟨_, same⟩ | ⟨content, _, rfl⟩ := step.effect
  · rw [same]
  · exact w.registry.register_closed content

/-- Any number of steps, and the fragments they hand in. -/
inductive Steps : Rendering → EventLoop → List Registration → Rendering → EventLoop → Prop
  | refl (r : Rendering) (w : EventLoop) : Steps r w [] r w
  | head {r r' r'' : Rendering} {w w' w'' : EventLoop} {handed later : List Registration}
      (step : Step r w handed r' w') (rest : Steps r' w' later r'' w'') :
      Steps r w (handed ++ later) r'' w''

namespace Steps

variable {r r' r'' : Rendering} {w w' w'' : EventLoop} {handed later : List Registration}

theorem single (step : Step r w handed r' w') : Steps r w handed r' w' := by
  simpa using head step (refl r' w')

theorem trans (first : Steps r w handed r' w') (second : Steps r' w' later r'' w'') :
    Steps r w (handed ++ later) r'' w'' := by
  induction first with
  | refl => exact second
  | head step _ ih =>
    rw [List.append_assoc]
    exact head step (ih second)

/-- Some steps after others. -/
theorem after (first : ∃ handed, Steps r w handed r' w')
    (rest : ∃ handed, Steps r' w' handed r'' w'') : ∃ handed, Steps r w handed r'' w'' := by
  obtain ⟨handed, first⟩ := first
  obtain ⟨later, rest⟩ := rest
  exact ⟨handed ++ later, first.trans rest⟩

/-- Some steps after one that hands in nothing. -/
theorem cons (step : Step r w [] r' w') (rest : ∃ handed, Steps r' w' handed r'' w'') :
    ∃ handed, Steps r w handed r'' w'' :=
  after ⟨[], single step⟩ rest

/-- The steps of a sibling are steps of its group. -/
theorem part (steps : Steps r w handed r' w') (before after : List Rendering)
    (next : List String → Rendering) :
    Steps (join (before ++ r :: after) next) w handed (join (before ++ r' :: after) next) w' := by
  induction steps with
  | refl => exact refl _ _
  | head step _ ih => exact head (step.part before after next) ih

/-- The steps of the body of an attempt are steps of the attempt. -/
theorem body (steps : Steps r w handed r' w') (next : Except RenderError String → Rendering) :
    Steps (attempt r next) w handed (attempt r' next) w' := by
  induction steps with
  | refl => exact refl _ _
  | head step _ ih => exact head (step.body next) ih

theorem closed (steps : Steps r w handed r' w') : w'.registry.closed = w.registry.closed := by
  induction steps with
  | refl => rfl
  | head step _ ih => exact ih.trans step.closed

/-- The fragments that are handed in get numbers in a row. -/
theorem numbered (steps : Steps r w handed r' w') :
    w'.registry.next = w.registry.next + handed.length ∧
      handed.map (·.slot) = List.range' w.registry.next handed.length := by
  induction steps with
  | refl => exact ⟨rfl, rfl⟩
  | head step _ ih =>
    obtain ⟨next, numbers⟩ := ih
    obtain ⟨rfl, same⟩ | ⟨content, rfl, rfl⟩ := step.effect
    · rw [same] at next numbers
      exact ⟨next, numbers⟩
    · rw [EventLoop.register_registry, Registry.register_next] at next numbers
      refine ⟨?_, ?_⟩
      · rw [next, List.length_append, List.length_singleton]
        omega
      · rw [List.map_append, numbers, List.length_append, List.length_singleton, Nat.add_comm 1,
          List.range'_succ]
        rfl

/-- Fragments that are on their way were on their way before, or they have just been handed in. -/
theorem mem_tasks (steps : Steps r w handed r' w') {task : FragmentTask}
    (here : task ∈ w'.registry.tasks) :
    task ∈ w.registry.tasks ∨ ∃ given ∈ handed, task = ⟨given.slot, given.content given.slot⟩ := by
  induction steps with
  | refl => exact .inl here
  | head step _ ih =>
    obtain before | ⟨given, member, rfl⟩ := ih here
    · obtain ⟨rfl, same⟩ | ⟨content, rfl, rfl⟩ := step.effect
      · exact .inl (same ▸ before)
      · obtain before | rfl := Registry.mem_register before
        · exact .inl before
        · exact .inr ⟨_, List.mem_append_left _ List.mem_cons_self, rfl⟩
    · exact .inr ⟨given, List.mem_append_right _ member, rfl⟩

/-- What is handed in is woken and taken in behind all others, unless the registry is closed. -/
theorem taken (steps : Steps r w handed r' w') : ∃ given, (given = [] ∨ given = handed) ∧
      w'.registry.tasks = w.registry.tasks ++ given.map (·.task) ∧
      w'.registry.queue = w.registry.queue ++ given.map (·.slot) ∧
      w'.registry.ready = w.registry.ready := by
  -- No step closes a registry, so that all of it is taken in, or nothing.
  cases shut : w.registry.closed with
  | true =>
    refine ⟨[], .inl rfl, ?_⟩
    simp only [List.map_nil, List.append_nil]
    induction steps with
    | refl => exact ⟨rfl, rfl, rfl⟩
    | head step _ ih =>
      have later := ih (step.closed.trans shut)
      obtain ⟨rfl, same⟩ | ⟨content, rfl, rfl⟩ := step.effect
      · rwa [same] at later
      · simpa [Registry.register, shut] using later
  | false =>
    refine ⟨handed, .inr rfl, ?_⟩
    induction steps with
    | refl => simp
    | head step _ ih =>
      obtain ⟨tasks, queue, ready⟩ := ih (step.closed.trans shut)
      obtain ⟨rfl, same⟩ | ⟨content, rfl, rfl⟩ := step.effect
      · rw [same] at tasks queue ready
        exact ⟨tasks, queue, ready⟩
      · simp only [EventLoop.register_registry, Registry.register, shut] at tasks queue ready
        simp [tasks, queue, ready, Registration.task, EventLoop.registration]

end Steps

mutual

/-- Going on with a rendering as far as it gets is a sequence of steps. -/
theorem poll_steps (r : Rendering) (w : EventLoop) :
    ∃ handed, Steps r w handed (r.poll w).1 (r.poll w).2 := by
  cases r with
  | done | failed | panicked => exact ⟨[], .refl _ _⟩
  | note event next => exact Steps.cons (.note event next w) (next.poll_steps _)
  | claim cell next =>
    rw [poll]
    split
    · rename_i used
      exact ⟨[], .single (.refuse used next)⟩
    · rename_i fresh
      exact Steps.cons (.claim fresh next) (next.poll_steps _)
  | number size next => exact Steps.cons (.number size next w) ((next _).poll_steps _)
  | outstanding next => exact Steps.cons (.outstanding next w) ((next _).poll_steps _)
  | register content next =>
    obtain ⟨later, rest⟩ := (next (w.register content).1).poll_steps (w.register content).2
    exact ⟨_, .head (.register content next w) rest⟩
  | wait pace next =>
    rw [poll]
    split <;> rename_i asked
    · exact Steps.cons (.settle asked next) (next.poll_steps _)
    · exact ⟨[], .single (.wait asked next)⟩
  | race r inTime late =>
    rw [poll]
    split <;> rename_i asked
    · exact Steps.cons (.inTime asked inTime late) (inTime.poll_steps _)
    · exact Steps.cons (.late asked inTime late) ((late _).poll_steps _)
    · exact ⟨[], .single (.race asked inTime late)⟩
  | join parts next =>
    -- What comes after the siblings' own steps depends on how the group stands then.
    refine Steps.after (pollAll_steps (isPrompt parts.length) true [] parts next w) ?_
    rw [poll_join]
    generalize pollAll (isPrompt parts.length) true parts w = polled
    cases stands : verdict polled.1 with
    | complete texts => exact Steps.cons (.complete stands next _) ((next texts).poll_steps _)
    | failed error => exact ⟨[], .single (.failPart stands next _)⟩
    | panicked message => exact ⟨[], .single (.panicPart stands next _)⟩
    | waiting => exact ⟨[], .refl _ _⟩
  | attempt body next =>
    refine Steps.after ((body.poll_steps w).imp fun _ before => before.body next) ?_
    rw [poll_attempt]
    generalize body.poll w = polled
    obtain ⟨left, w'⟩ := polled
    cases left with
    | done markup => exact Steps.cons (.succeed markup next w') ((next (.ok markup)).poll_steps _)
    | failed error => exact Steps.cons (.recover error next w') ((next (.error error)).poll_steps _)
    | panicked message => exact ⟨[], .single (.panicBody message next w')⟩
    | _ => exact ⟨[], .refl _ _⟩
termination_by structural r

/-- Going on with siblings in order is a sequence of steps of their group; `before` are the siblings
    that have had their turn. -/
theorem pollAll_steps (prompt settled : Bool) (before parts : List Rendering)
    (next : List String → Rendering) (w : EventLoop) :
    ∃ handed, Steps (join (before ++ parts) next) w handed
      (join (before ++ (pollAll prompt settled parts w).1) next)
      (pollAll prompt settled parts w).2 := by
  cases parts with
  | nil => exact ⟨[], .refl _ _⟩
  | cons part rest =>
    have first := (part.poll_steps w).imp fun _ first => first.part before rest next
    rw [pollAll_cons]
    split
    · exact first
    · have others := pollAll_steps prompt (settled && (part.poll w).1.isDone)
        (before ++ [(part.poll w).1]) rest next (part.poll w).2
      simp only [List.append_assoc, List.singleton_append] at others
      exact Steps.after first others
termination_by structural parts

end

end Rendering

end ProgressiveHtml
