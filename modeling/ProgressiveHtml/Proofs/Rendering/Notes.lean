import ProgressiveHtml.Proofs.Registry.Accounting
import ProgressiveHtml.Proofs.Rendering.Deeds
import ProgressiveHtml.Proofs.Rendering.Silent

namespace ProgressiveHtml

/-!
# Renderings — what they write to the journal

Some events are written whatever is rendered: values are asked for and settle, fragments are handed in,
and patches are handed out.  Everything else in the journal is noted by a rendering, so a kind of event that
no rendering notes is not written while renderings go on, neither by the main task nor in the
background.

* `Event.IsRoutine` — the events that are written whatever is rendered;
* `Timeline.Adds`, `EventLoop.Writes` — only events of a kind are written between two states;
* `Rendering.Notes`, `EventLoop.Notes.poll`, `EventLoop.Notes.meanwhile` — renderings that note only events of a
  kind, and what is written while they go on;
* `Event.OfFragment`, `Node.notes_rendering` — the events that trees note.
-/

/-! ### Kinds of events -/

/-- The events that are written whatever is rendered. -/
inductive Event.IsRoutine : Event → Prop
  | started (label : Label) : IsRoutine (.started label)
  | settled (label : Label) : IsRoutine (.settled label)
  | registered (slot pending : Nat) : IsRoutine (.notice (.registered slot pending))
  | discarded (slot : Nat) : IsRoutine (.notice (.discarded slot))
  | ready (slot : String) (pending : Nat) : IsRoutine (.notice (.ready slot pending))

/-- The events that tell of a fragment: its callbacks are called, or its value settles or fails. -/
inductive Event.OfFragment : Event → Prop
  | rendering (label : Label) : OfFragment (.rendering label)
  | fallback (label : Label) (slot : Nat) : OfFragment (.fallback label slot)
  | failure (label : Label) : OfFragment (.failure label)
  | fragmentFailed (slot : Nat) (error : Chain) : OfFragment (.notice (.fragmentFailed slot error))
  | settledInTime : OfFragment (.notice .settledInTime)
  | failedInTime : OfFragment (.notice .failedInTime)
  | failureRenderPanicked (error : Chain) : OfFragment (.notice (.failureRenderPanicked error))

variable {P Q : Event → Prop}

namespace Timeline

/-- Only events of a kind are written from one state of the journal to a later one. -/
def Adds (P : Event → Prop) (t t' : Timeline) : Prop :=
  ∃ new, t'.events = t.events ++ new ∧ ∀ event ∈ new, P event

variable {t t' t'' : Timeline}

theorem Adds.of_events_eq (same : t'.events = t.events) : t.Adds P t' :=
  ⟨[], by rw [same, List.append_nil], nofun⟩

theorem Adds.refl (t : Timeline) : t.Adds P t := .of_events_eq rfl

theorem Adds.trans (first : t.Adds P t') (second : t'.Adds P t'') : t.Adds P t'' := by
  obtain ⟨new, events, each⟩ := first
  obtain ⟨later, events', each'⟩ := second
  refine ⟨new ++ later, by rw [events', events, List.append_assoc], fun event member => ?_⟩
  exact (List.mem_append.1 member).elim (each event) (each' event)

theorem Adds.note {event : Event} (ofKind : P event) (t : Timeline) : t.Adds P (t.note event) :=
  ⟨[event], t.events_note event, List.forall_mem_singleton.2 ofKind⟩

/-- Who looks at other events only sees nothing of it. -/
theorem Adds.filterMap {α : Type} {see : Event → Option α} (adds : t.Adds (see · = none) t') :
    t'.events.filterMap see = t.events.filterMap see := by
  obtain ⟨new, events, each⟩ := adds
  rw [events, List.filterMap_append, List.filterMap_eq_nil_iff.2 each, List.append_nil]

end Timeline

/-- Asking a value writes down routine only. -/
theorem Pace.adds_poll (routine : ∀ event, event.IsRoutine → P event) (p : Pace) (t : Timeline) :
    t.Adds P (p.poll t).2 := by
  refine ⟨_, p.events_poll t, fun event member => routine event ?_⟩
  unfold writes at member
  obtain first | last := List.mem_append.1 member
  · split at first
    · cases first
    · exact List.mem_singleton.1 first ▸ .started p.label
  · split at last
    · exact List.mem_singleton.1 last ▸ .settled p.label
    · cases last

/-- Asking a race does the same. -/
theorem Race.adds_poll (routine : ∀ event, event.IsRoutine → P event) (r : Race) (t : Timeline) :
    t.Adds P (r.poll t).2 := by
  obtain ⟨new, events, each⟩ := r.pace.adds_poll routine t
  refine ⟨new, ?_, each⟩
  rw [← events, r.pace.events_poll]
  exact r.events_poll t

/-- What is reported when a fragment is handed in is routine. -/
theorem Registry.registrationNotice_isRoutine (r : Registry) :
    Event.IsRoutine (.notice r.registrationNotice) := by
  unfold registrationNotice
  split
  · exact .discarded _
  · exact .registered _ _

namespace Rendering

mutual

/-- Every event that is noted on some way of going on is of a kind, here and in fragments that are handed
    in. -/
def Notes (P : Event → Prop) : Rendering → Prop
  | done _ => True
  | failed _ => True
  | panicked _ => True
  | note event next => P event ∧ next.Notes P
  | claim _ next => next.Notes P
  | number _ next => ∀ first, (next first).Notes P
  | outstanding next => ∀ pending, (next pending).Notes P
  | register content next => (∀ slot, (content slot).Notes P) ∧ ∀ slot, (next slot).Notes P
  | wait _ next => next.Notes P
  | race _ inTime late => inTime.Notes P ∧ ∀ pace, (late pace).Notes P
  | join parts next => NoteAll P parts ∧ ∀ texts, (next texts).Notes P
  | attempt body next => body.Notes P ∧ ∀ result, (next result).Notes P
termination_by structural r => r

/-- The same of siblings. -/
def NoteAll (P : Event → Prop) : List Rendering → Prop
  | [] => True
  | part :: rest => part.Notes P ∧ NoteAll P rest
termination_by structural parts => parts

end

/-- Siblings with one of them in the middle. -/
theorem noteAll_middle {before after : List Rendering} {part : Rendering} :
    NoteAll P (before ++ part :: after) ↔ NoteAll P before ∧ part.Notes P ∧ NoteAll P after := by
  induction before with
  | nil => simp [NoteAll]
  | cons first rest ih => simp [NoteAll, ih, and_assoc]

mutual

/-- What notes only events of a kind notes only events of a larger one. -/
theorem Notes.mono (larger : ∀ event, P event → Q event) {r : Rendering} (notes : r.Notes P) :
    r.Notes Q := by
  cases r with
  | done | failed | panicked => trivial
  | note event next => exact ⟨larger event notes.1, Notes.mono larger notes.2⟩
  | claim cell next => exact Notes.mono (r := next) larger notes
  | number size next => exact fun first => Notes.mono larger (notes first)
  | outstanding next => exact fun pending => Notes.mono larger (notes pending)
  | register content next =>
    exact ⟨fun slot => Notes.mono larger (notes.1 slot), fun slot => Notes.mono larger (notes.2 slot)⟩
  | wait pace next => exact Notes.mono (r := next) larger notes
  | race race inTime late =>
    exact ⟨Notes.mono larger notes.1, fun pace => Notes.mono larger (notes.2 pace)⟩
  | join parts next => exact ⟨NoteAll.mono larger notes.1, fun texts => Notes.mono larger (notes.2 texts)⟩
  | attempt body next => exact ⟨Notes.mono larger notes.1, fun result => Notes.mono larger (notes.2 result)⟩
termination_by structural r

theorem NoteAll.mono (larger : ∀ event, P event → Q event) {parts : List Rendering}
    (notes : NoteAll P parts) : NoteAll Q parts := by
  cases parts with
  | nil => trivial
  | cons part rest => exact ⟨Notes.mono larger notes.1, NoteAll.mono larger notes.2⟩
termination_by structural parts

end

variable {r r' : Rendering} {w w' : EventLoop} {handed : List Registration}

/-- A step writes events of the kind, and so will what is left and what is handed in. -/
theorem Notes.step (routine : ∀ event, event.IsRoutine → P event) (notes : r.Notes P)
    (step : r.Step w handed r' w') :
    w.timeline.Adds P w'.timeline ∧ r'.Notes P ∧ ∀ given ∈ handed, given.task.work.Notes P := by
  have none : ∀ given ∈ ([] : List Registration), given.task.work.Notes P := nofun
  induction step with
  | note event next w => exact ⟨.note notes.1 _, notes.2, none⟩
  | register content next w =>
    -- The notice about the registration is a matter of routine.
    have ofKind := routine _ w.registry.registrationNotice_isRoutine
    exact ⟨.note ofKind _, notes.2 _, List.forall_mem_singleton.2 (notes.1 _)⟩
  | number | outstanding => exact ⟨.refl _, notes _, none⟩
  | claim => exact ⟨.refl _, notes, none⟩
  | refuse | failPart | panicPart | panicBody => exact ⟨.refl _, trivial, none⟩
  | @wait pace _ _ w asked | @settle pace _ w asked =>
    have adds := pace.adds_poll routine w.timeline
    rw [asked] at adds
    exact ⟨adds, notes, none⟩
  | @race r _ _ w asked =>
    have adds := r.adds_poll routine w.timeline
    rw [asked] at adds
    exact ⟨adds, notes, none⟩
  | @inTime r _ w asked =>
    have adds := r.adds_poll routine w.timeline
    rw [asked] at adds
    exact ⟨adds, notes.1, none⟩
  | @late r pace _ w asked =>
    have adds := r.adds_poll routine w.timeline
    rw [asked] at adds
    exact ⟨adds, notes.2 pace, none⟩
  | part _ before after next ih =>
    obtain ⟨parts, onward⟩ := notes
    obtain ⟨first, part, last⟩ := noteAll_middle.1 parts
    obtain ⟨adds, left, given⟩ := ih part
    exact ⟨adds, ⟨noteAll_middle.2 ⟨first, left, last⟩, onward⟩, given⟩
  | body _ next ih =>
    obtain ⟨adds, left, given⟩ := ih notes.1
    exact ⟨adds, ⟨left, notes.2⟩, given⟩
  | complete | succeed | recover => exact ⟨.refl _, notes.2 _, none⟩

/-- So do any number of steps. -/
theorem Notes.steps (routine : ∀ event, event.IsRoutine → P event) (notes : r.Notes P)
    (steps : r.Steps w handed r' w') :
    w.timeline.Adds P w'.timeline ∧ r'.Notes P ∧ ∀ given ∈ handed, given.task.work.Notes P := by
  induction steps with
  | refl => exact ⟨.refl _, notes, nofun⟩
  | head step _ ih =>
    obtain ⟨adds, left, given⟩ := notes.step routine step
    obtain ⟨adds', last, given'⟩ := ih left
    exact ⟨adds.trans adds', last, List.forall_mem_append.2 ⟨given, given'⟩⟩

/-- What is left of a rendering that was asked. -/
theorem Notes.ask (routine : ∀ event, event.IsRoutine → P event) (notes : r.Notes P) (w : EventLoop) :
    (r.poll w).1.Notes P := by
  obtain ⟨handed, steps⟩ := r.poll_steps w
  exact (notes.steps routine steps).2.1

/-- Going on after what notes only events of the kind. -/
theorem Notes.andThen (notes : r.Notes P) {next : String → Rendering}
    (onward : ∀ markup, (next markup).Notes P) : (r.andThen next).Notes P := by
  induction r using Rendering.rec (motive_2 := fun _ => True) with
  | done markup => exact onward markup
  | failed | panicked => trivial
  | note _ _ ih => exact ⟨notes.1, ih notes.2⟩
  | claim _ _ ih => exact ih notes
  | wait _ _ ih => exact ih notes
  | number _ _ ih => exact fun first => ih first (notes first)
  | outstanding _ ih => exact fun pending => ih pending (notes pending)
  | register _ _ _ ih => exact ⟨notes.1, fun slot => ih slot (notes.2 slot)⟩
  | race _ _ _ inTime late => exact ⟨inTime notes.1, fun pace => late pace (notes.2 pace)⟩
  | join _ _ _ ih => exact ⟨notes.1, fun texts => ih texts (notes.2 texts)⟩
  | attempt _ _ _ ih => exact ⟨notes.1, fun result => ih result (notes.2 result)⟩
  | nil | cons => trivial

theorem Notes.times (notes : r.Notes P) (count : Nat) : (times count r).Notes P := by
  induction count with
  | zero => trivial
  | succ count ih => exact notes.andThen fun _ => ih.andThen fun _ => trivial

end Rendering

/-! ### What trees and values come to -/

/-- What is done with a value once it has taken its time. -/
theorem Eventual.notes_conclude {α : Type} (value : Eventual α) {next : α → Rendering}
    (onward : (next value.result).Notes P) : (value.conclude next).Notes P := by
  unfold conclude
  split
  · trivial
  · exact onward

/-- Showing a failure tells of its fragment, if its callback notes nothing else. -/
theorem notes_failureRendering (label : Label) (onError : Option (Chain → Option Rendering))
    (error : Chain)
    (onward : ∀ callback ∈ onError, ∀ shown ∈ callback error, shown.Notes Event.OfFragment) :
    (failureRendering label onError error).Notes Event.OfFragment := by
  cases onError with
  | none => trivial
  | some callback =>
    refine ⟨.failure label, ?_⟩
    cases built : callback error with
    | none => exact ⟨.failureRenderPanicked error, trivial⟩
    | some shown => exact onward callback rfl shown built

/-- So does a fragment, if its callbacks note nothing else. -/
theorem Fragment.notes_rendering {f : Fragment} {fallback : Rendering}
    (settled : (f.settled f.value.result).Notes Event.OfFragment)
    (ofFallback : fallback.Notes Event.OfFragment) (deferral : Option Nat) :
    (f.rendering fallback deferral).Notes Event.OfFragment := by
  cases deferral with
  | none => exact Eventual.notes_conclude _ settled
  | some timeout =>
    have inTime (result : Except Chain String) :
        Event.OfFragment (.notice (inTimeNotice result)) := by
      cases result with
      | ok => exact .settledInTime
      | error => exact .failedInTime
    refine ⟨Eventual.notes_conclude _ ⟨inTime _, settled⟩, fun pace => ⟨fun slot => ?_, fun slot => ?_⟩⟩
    · refine Eventual.notes_conclude _ ?_
      split
      · rename_i result isOk
        exact isOk ▸ settled
      · rename_i result error isError
        exact ⟨.fragmentFailed slot error, isError ▸ settled⟩
    · exact ⟨.fallback f.label slot, ofFallback.andThen fun _ => trivial⟩

mutual

/-- Wherever a tree stands, all that its rendering notes tells of fragments. -/
theorem Node.notes_rendering (node : Node) (env : Environment) (first : Nat) :
    (node.rendering env first).Notes Event.OfFragment := by
  cases node with
  | empty | markup | text | fail | panics => trivial
  | element tag attributes children =>
    exact ⟨Node.noteAll_renderings children env first, fun _ => trivial⟩
  | group children => exact ⟨Node.noteAll_renderings children env first, fun _ => trivial⟩
  | head title children => exact ⟨Node.noteAll_renderings children env first, fun _ => trivial⟩
  | provide key value child => exact child.notes_rendering _ first
  | consume key build => exact (build _).notes_rendering env
  | await value content => exact Eventual.notes_conclude _ (content.notes_rendering env)
  | defer value render fallback onError =>
    rw [Node.rendering_defer]
    refine Fragment.notes_rendering ?_ (fallback.notes_rendering env) env.deferral
    show (Fragment.settled _ value.result).Notes Event.OfFragment
    cases value.result with
    | ok shown => exact ⟨.rendering _, (render shown).notes_rendering env⟩
    | error chain =>
      refine notes_failureRendering _ _ _ fun callback given shown built => ?_
      -- The callback is taken out of the node by cases, so that the recursion stays structural.
      cases onError with
      | none => simp [Fragment.ofCallbacks] at given
      | some build =>
        obtain rfl := Option.some.inj given
        exact (build chain).notes_rendering? env built
  | again count child => exact (child.notes_rendering env first).times count
  | recover child =>
    refine ⟨child.notes_rendering env first, fun result => ?_⟩
    cases result <;> trivial
  | inspect keys =>
    rw [Node.rendering]
    split
    · trivial
    · exact fun _ => trivial
termination_by structural node

theorem Node.noteAll_renderings (nodes : List Node) (env : Environment) (first : Nat) :
    Rendering.NoteAll Event.OfFragment (Node.renderings nodes env first) := by
  cases nodes with
  | nil => trivial
  | cons node rest => exact ⟨node.notes_rendering env first, Node.noteAll_renderings rest env _⟩
termination_by structural nodes

theorem Built.notes_rendering (built : Built) (env : Environment) :
    (built.rendering env).Notes Event.OfFragment := by
  cases built with
  | node tree => exact fun first => tree.notes_rendering env first
  | panics => trivial
termination_by structural built

theorem Built.notes_rendering? (built : Built) (env : Environment) {shown : Rendering}
    (rendered : built.rendering? env = some shown) : shown.Notes Event.OfFragment := by
  cases built with
  | node tree =>
    obtain rfl := Option.some.inj rendered
    exact fun first => tree.notes_rendering env first
  | panics => simp [Built.rendering?] at rendered
termination_by structural built

end

/-! ### Whole event loops -/

namespace EventLoop

/-- All late fragments note only events of a kind. -/
def Notes (P : Event → Prop) (w : EventLoop) : Prop := ∀ task ∈ w.registry.tasks, task.work.Notes P

/-- From one state to a later one only events of a kind are written, and the late fragments there will note
    only such events. -/
structure Writes (P : Event → Prop) (w w' : EventLoop) : Prop where
  adds : w.timeline.Adds P w'.timeline
  notes : w'.Notes P

variable {w w' w'' : EventLoop} {r r' : Rendering} {handed : List Registration} {new : List Happening}

theorem Notes.refl (still : w.Notes P) : w.Writes P w := ⟨.refl _, still⟩

theorem Writes.trans (first : w.Writes P w') (second : w'.Writes P w'') : w.Writes P w'' :=
  ⟨first.adds.trans second.adds, second.notes⟩

/-- An event of the kind is written. -/
theorem Notes.note {event : Event} (still : w.Notes P) (ofKind : P event) : w.Writes P (w.note event) :=
  ⟨.note ofKind _, still⟩

/-- Giving up the registry, if that is what is done, writes nothing. -/
theorem Notes.released (still : w.Notes P) (same : w' = w ∨ w' = w.close) : w.Writes P w' := by
  obtain rfl | rfl := same
  · exact still.refl
  · exact ⟨.refl _, nofun⟩

section

variable (routine : ∀ event, event.IsRoutine → P event)

include routine

/-- The steps of a rendering write events of the kind, and so will the fragments that it hands in. -/
theorem Notes.steps (still : w.Notes P) (notes : r.Notes P) (steps : r.Steps w handed r' w') :
    w.Writes P w' := by
  obtain ⟨adds, -, given⟩ := notes.steps routine steps
  refine ⟨adds, fun task member => ?_⟩
  obtain before | ⟨one, isGiven, rfl⟩ := steps.mem_tasks member
  · exact still task before
  · exact given one isGiven

/-- A rendering is asked to go on. -/
theorem Notes.poll (still : w.Notes P) (notes : r.Notes P) : w.Writes P (r.poll w).2 := by
  obtain ⟨handed, steps⟩ := r.poll_steps w
  exact still.steps routine notes steps

/-- Something happens in the background. -/
theorem Notes.background (still : w.Notes P) (move : w.Background new w') : w.Writes P w' := by
  cases move with
  | pass => exact ⟨.refl _, still⟩
  | @goOn after slot work left handed found steps =>
    have notes := still _ (Registry.mem_of_task? found)
    obtain ⟨adds, onward⟩ := still.steps routine notes steps
    refine ⟨adds, fun task member => ?_⟩
    obtain ⟨before, isTask, rfl⟩ := List.mem_map.1 member
    split
    · exact (notes.steps routine steps).2.1
    · exact onward before isTask
  | finish => exact ⟨.refl _, fun task member => still task (List.mem_of_mem_filter member)⟩

/-- However long it takes. -/
theorem Notes.meanwhile (still : w.Notes P) (moves : w.Meanwhile new w') : w.Writes P w' := by
  induction moves with
  | refl => exact still.refl
  | head first _ ih =>
    have writes := still.background routine first
    exact writes.trans (ih writes.notes)

/-- The registry is asked for a patch. -/
theorem Notes.drain (still : w.Notes P) : w.Writes P w.drain.2 := by
  constructor
  case adds =>
    unfold EventLoop.drain
    split
    · unfold handOut
      split
      · exact .note (routine _ (.ready _ _)) _
      · exact .refl _
    · exact .refl _
  case notes => exact fun task member => still task ((registry_of_drain (w := w) rfl).2.2 ▸ member)

end

end EventLoop

end ProgressiveHtml
