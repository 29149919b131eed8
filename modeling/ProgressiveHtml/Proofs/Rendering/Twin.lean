import ProgressiveHtml.Proofs.Rendering.Asked
import ProgressiveHtml.Proofs.Rendering.Brief
import ProgressiveHtml.Proofs.Rendering.Deadlines
import ProgressiveHtml.Proofs.Rendering.Ending

namespace ProgressiveHtml

/-!
# Renderings — the same but for what some values come to

Two runs may differ only in what the values of some fragments come to, all of which are late.  Asked
side by side, the renderings of both runs do the same at the same time: they differ in what is shown
for these values, which is ready as soon as the values are, and in what is written to the journal.

* `Timeline.SameClock` — timelines that differ in their journals only;
* `Rendering.Twin` — renderings that differ only in what the values of late fragments come to;
* `Rendering.Missing` — the values of these fragments miss their timeouts;
* `EventLoop.InStep` — the states of two runs at the same point;
* `Rendering.Twin.poll` — asking twins in such states.
-/

/-! ### Clocks -/

/-- Two timelines differ in their journals only, and in whose stream is being read. -/
structure Timeline.SameClock (t t' : Timeline) : Prop where
  now : t.now = t'.now
  sleeps : t.sleeps = t'.sleeps

/-- Asking something in timelines that differ in their journals only has the same answer. -/
def Timeline.Agree {α : Type} (asked asked' : α × Timeline) : Prop :=
  asked.1 = asked'.1 ∧ asked.2.SameClock asked'.2

section

variable {t t' : Timeline}

theorem Sleep.poll_agree (s : Sleep) (clock : t.SameClock t') :
    Timeline.Agree (s.poll t) (s.poll t') := by
  obtain ⟨now, sleeps⟩ := clock
  cases s with
  | idle length =>
    cases length with
    | zero => exact ⟨rfl, now, sleeps⟩
    | succ length =>
      refine ⟨?_, now, congrArg (· + 1) sleeps⟩
      show some (running ⟨t.now + (length + 1), t.sleeps⟩) =
        some (running ⟨t'.now + (length + 1), t'.sleeps⟩)
      rw [now, sleeps]
  | running alarm =>
    rw [poll, poll, now]
    split <;> exact ⟨rfl, now, sleeps⟩

theorem Sleep.pollAll_agree (sleeps : List Sleep) (clock : t.SameClock t') :
    Timeline.Agree (pollAll sleeps t) (pollAll sleeps t') := by
  induction sleeps generalizing t t' with
  | nil => exact ⟨rfl, clock⟩
  | cons s rest ih =>
    obtain ⟨same, clock⟩ := s.poll_agree clock
    rw [pollAll_cons, pollAll_cons, ← same]
    cases (s.poll t).1 with
    | none => exact ih clock
    | some left => exact ⟨rfl, clock⟩

theorem Pace.poll_agree (p : Pace) (clock : t.SameClock t') :
    Timeline.Agree (p.poll t) (p.poll t') := by
  have begun : (p.begin t).SameClock (p.begin t') := by
    unfold begin
    split
    · exact clock
    · exact ⟨clock.now, clock.sleeps⟩
  obtain ⟨same, clock⟩ := Sleep.pollAll_agree p.sleeps begun
  rw [poll_def, poll_def, ← same]
  cases (Sleep.pollAll p.sleeps (p.begin t)).1 with
  | nil => cases p.never <;> exact ⟨rfl, clock.now, clock.sleeps⟩
  | cons => exact ⟨rfl, clock⟩

theorem Race.poll_agree (r : Race) (clock : t.SameClock t') :
    Timeline.Agree (r.poll t) (r.poll t') := by
  obtain ⟨same, clock⟩ := r.pace.poll_agree clock
  obtain ⟨sameTimer, clockTimer⟩ := r.timer.poll_agree clock
  rw [poll_def, poll_def, ← same, ← sameTimer]
  cases (r.pace.poll t).1 with
  | none => exact ⟨rfl, clock⟩
  | some pace => cases (r.timer.poll (r.pace.poll t).2).1 <;> exact ⟨rfl, clockTimer⟩

end

namespace Rendering

/-! ### Twins -/

/-- The contents of a late fragment in two runs: they wait for the same value, and then each shows
    something without waiting again. -/
inductive Late : Rendering → Rendering → Prop
  | mk (pace : Pace) {told told' : Rendering} (brief : told.Brief) (brief' : told'.Brief) :
      Late (wait pace told) (wait pace told')

mutual

/-- Two renderings differ only in what the values of late fragments come to.  These fragments have the
    names in `F`. -/
inductive Twin (F : String → Prop) : Rendering → Rendering → Prop
  | done (markup : String) : Twin F (.done markup) (.done markup)
  | failed (error : RenderError) : Twin F (.failed error) (.failed error)
  | panicked (message : String) : Twin F (.panicked message) (.panicked message)
  | note {next next' : Rendering} (event : Event) (onward : Twin F next next') :
      Twin F (.note event next) (.note event next')
  | claim {next next' : Rendering} (cell : Nat) (onward : Twin F next next') :
      Twin F (.claim cell next) (.claim cell next')
  | number {next next' : Nat → Rendering} (size : Nat)
      (onward : ∀ first, Twin F (next first) (next' first)) :
      Twin F (.number size next) (.number size next')
  | outstanding {next next' : Nat → Rendering}
      (onward : ∀ pending, Twin F (next pending) (next' pending)) :
      Twin F (.outstanding next) (.outstanding next')
  | register {content content' next next' : Nat → Rendering}
      (handedIn : ∀ slot, Twin F (content slot) (content' slot))
      (onward : ∀ slot, Twin F (next slot) (next' slot)) :
      Twin F (.register content next) (.register content' next')
  /-- A fragment is late, of which the value may come to something else. -/
  | defer {content content' next next' : Nat → Rendering} {label : Label} (named : F label.name)
      (handedIn : ∀ slot, Late (content slot) (content' slot))
      (onward : ∀ slot, Twin F (next slot) (next' slot)) :
      Twin F (.register content fun slot => .note (.fallback label slot) (next slot))
        (.register content' fun slot => .note (.fallback label slot) (next' slot))
  | wait {next next' : Rendering} (pace : Pace) (onward : Twin F next next') :
      Twin F (.wait pace next) (.wait pace next')
  | race {inTime inTime' : Rendering} {late late' : Pace → Rendering} (r : Race)
      (settled : Twin F inTime inTime') (timedOut : ∀ pace, Twin F (late pace) (late' pace)) :
      Twin F (.race r inTime late) (.race r inTime' late')
  /-- Of a fragment that misses its timeout, the value may come to something else. -/
  | miss {r : Race} (named : F r.pace.label.name) (inTime inTime' : Rendering)
      {late late' : Pace → Rendering} (timedOut : ∀ pace, Twin F (late pace) (late' pace)) :
      Twin F (.race r inTime late) (.race r inTime' late')
  | join {parts parts' : List Rendering} {next next' : List String → Rendering}
      (twins : TwinAll F parts parts') (onward : ∀ texts, Twin F (next texts) (next' texts)) :
      Twin F (.join parts next) (.join parts' next')
  | attempt {body body' : Rendering} {next next' : Except RenderError String → Rendering}
      (twins : Twin F body body') (onward : ∀ result, Twin F (next result) (next' result)) :
      Twin F (.attempt body next) (.attempt body' next')

/-- Siblings are twins one by one. -/
inductive TwinAll (F : String → Prop) : List Rendering → List Rendering → Prop
  | nil : TwinAll F [] []
  | cons {part part' : Rendering} {rest rest' : List Rendering} (first : Twin F part part')
      (others : TwinAll F rest rest') : TwinAll F (part :: rest) (part' :: rest')

end

section

variable {F : String → Prop}

mutual

/-- Every rendering is a twin of itself. -/
theorem Twin.refl (r : Rendering) : Twin F r r := by
  cases r with
  | done markup => exact .done markup
  | failed error => exact .failed error
  | panicked message => exact .panicked message
  | note event next => exact .note event (.refl next)
  | claim cell next => exact .claim cell (.refl next)
  | number size next => exact .number size fun first => .refl (next first)
  | outstanding next => exact .outstanding fun pending => .refl (next pending)
  | register content next =>
    exact .register (fun slot => .refl (content slot)) fun slot => .refl (next slot)
  | wait pace next => exact .wait pace (.refl next)
  | race r inTime late => exact .race r (.refl inTime) fun pace => .refl (late pace)
  | join parts next => exact .join (.refl parts) fun texts => .refl (next texts)
  | attempt body next => exact .attempt (.refl body) fun result => .refl (next result)
termination_by structural r

theorem TwinAll.refl (parts : List Rendering) : TwinAll F parts parts := by
  cases parts with
  | nil => exact .nil
  | cons part rest => exact .cons (.refl part) (.refl rest)
termination_by structural parts

end

/-- Going on in the same way after twins. -/
theorem Twin.andThen : ∀ {r r' : Rendering}, Twin F r r' → ∀ {next next' : String → Rendering},
    (∀ markup, Twin F (next markup) (next' markup)) → Twin F (r.andThen next) (r'.andThen next')
  | _, _, .done markup, _, _, onward => onward markup
  | _, _, .failed error, _, _, _ => .failed error
  | _, _, .panicked message, _, _, _ => .panicked message
  | _, _, .note event twins, _, _, onward => .note event (twins.andThen onward)
  | _, _, .claim cell twins, _, _, onward => .claim cell (twins.andThen onward)
  | _, _, .number size twins, _, _, onward => .number size fun first => (twins first).andThen onward
  | _, _, .outstanding twins, _, _, onward =>
    .outstanding fun pending => (twins pending).andThen onward
  | _, _, .register handedIn twins, _, _, onward =>
    .register handedIn fun slot => (twins slot).andThen onward
  | _, _, .defer named handedIn twins, _, _, onward =>
    .defer named handedIn fun slot => (twins slot).andThen onward
  | _, _, .wait pace twins, _, _, onward => .wait pace (twins.andThen onward)
  | _, _, .race r settled timedOut, _, _, onward =>
    .race r (settled.andThen onward) fun pace => (timedOut pace).andThen onward
  | _, _, .miss named _ _ timedOut, _, _, onward =>
    .miss named _ _ fun pace => (timedOut pace).andThen onward
  | _, _, .join parts twins, _, _, onward => .join parts fun texts => (twins texts).andThen onward
  | _, _, .attempt body twins, _, _, onward =>
    .attempt body fun result => (twins result).andThen onward

/-- Twins several times in a row. -/
theorem Twin.times {r r' : Rendering} (twins : Twin F r r') (count : Nat) :
    Twin F (times count r) (times count r') := by
  induction count with
  | zero => exact .done ""
  | succ count ih => exact twins.andThen fun _ => ih.andThen fun _ => .done _

/-! ### Endings and alarms -/

/-- Twins are over together, in the same way. -/
theorem Twin.endsLike {r r' : Rendering} (twins : Twin F r r') : r.EndsLike r' := by
  cases twins with
  | done | failed | panicked => exact .inr ⟨rfl, rfl⟩
  | _ => exact .inl ⟨rfl, rfl⟩

theorem TwinAll.endsLike : ∀ {parts parts' : List Rendering},
    TwinAll F parts parts' → List.Forall₂ EndsLike parts parts'
  | _, _, .nil => .nil
  | _, _, .cons first others => .cons first.endsLike others.endsLike

mutual

/-- Twins wait for the same sleeps. -/
theorem Twin.alarms_eq : ∀ {r r' : Rendering}, Twin F r r' → r.alarms = r'.alarms
  | _, _, .done .. | _, _, .failed .. | _, _, .panicked .. | _, _, .note .. | _, _, .claim ..
  | _, _, .number .. | _, _, .outstanding .. | _, _, .register .. | _, _, .defer ..
  | _, _, .wait .. | _, _, .race .. | _, _, .miss .. => rfl
  | _, _, .join twins _ => twins.alarms_eq
  | _, _, .attempt twins _ => twins.alarms_eq

theorem TwinAll.alarms_eq : ∀ {parts parts' : List Rendering}, TwinAll F parts parts' →
    alarmsOfAll parts = alarmsOfAll parts'
  | _, _, .nil => rfl
  | _, _, .cons first others => congrArg₂ (· ++ ·) first.alarms_eq others.alarms_eq

end

end

end Rendering

/-! ### The states of two runs -/

/-- Two chunks are the same, or they are patches of the same slot, which is one of `own`. -/
def Chunk.SameBut (own : Nat → Prop) (c c' : Chunk) : Prop :=
  c = c' ∨ ∃ slot, own slot ∧ ∃ markup markup',
    c = .patch (Markup.slotName slot) markup ∧ c' = .patch (Markup.slotName slot) markup'

/-- Two items are chunks that are the same but for the patches of the slots `own`. -/
inductive Item.SameBut (own : Nat → Prop) : Item → Item → Prop
  | ok {c c' : Chunk} (same : c.SameBut own c') : SameBut own (.ok c) (.ok c')

/-- The tasks of a slot in two runs are twins, or they are the contents of a late fragment whose slot is
    one of `own`. -/
inductive FragmentTask.Twin (F : String → Prop) (own : Nat → Prop) :
    FragmentTask → FragmentTask → Prop
  | same {work work' : Rendering} (slot : Nat) (twins : work.Twin F work') :
      Twin F own ⟨slot, work⟩ ⟨slot, work'⟩
  | late {work work' : Rendering} {slot : Nat} (mine : own slot) (late : work.Late work') :
      Twin F own ⟨slot, work⟩ ⟨slot, work'⟩

/-- The states of two runs at the same point.  They differ in their journals, in the contents of the
    fragments whose slots are `own`, and in what has been made of them. -/
structure EventLoop.InStep (F : String → Prop) (own : Nat → Prop) (w v : EventLoop) : Prop where
  clock : w.timeline.SameClock v.timeline
  cells : w.cells = v.cells
  used : w.used = v.used
  next : w.registry.next = v.registry.next
  pending : w.registry.pending = v.registry.pending
  closed : w.registry.closed = v.registry.closed
  queue : w.registry.queue = v.registry.queue
  tasks : List.Forall₂ (FragmentTask.Twin F own) w.registry.tasks v.registry.tasks
  ready : List.Forall₂ (Item.SameBut own) w.registry.ready v.registry.ready

namespace EventLoop.InStep

variable {F : String → Prop} {own : Nat → Prop} {w v : EventLoop}

theorem now (inStep : InStep F own w v) : w.now = v.now := inStep.clock.now

/-- Every run without errors is in step with itself. -/
theorem refl (F : String → Prop) (own : Nat → Prop) (clean : ∀ error, .error error ∉ w.registry.ready) :
    InStep F own w w where
  clock := ⟨rfl, rfl⟩
  cells := rfl
  used := rfl
  next := rfl
  pending := rfl
  closed := rfl
  queue := rfl
  tasks := List.forall₂_same.2 fun task _ => .same task.slot (.refl task.work)
  ready := by
    refine List.forall₂_same.2 fun item here => ?_
    cases item with
    | ok chunk => exact .ok (.inl rfl)
    | error error => exact absurd here (clean error)

/-- Something is asked that only looks at the clock. -/
theorem timeline (inStep : InStep F own w v) {t t' : Timeline} (clock : t.SameClock t') :
    InStep F own { w with timeline := t } { v with timeline := t' } :=
  { inStep with clock }

/-- Something is written to the journals. -/
theorem note (inStep : InStep F own w v) (event event' : Event) :
    InStep F own (w.note event) (v.note event') :=
  inStep.timeline ⟨inStep.clock.now, inStep.clock.sleeps⟩

theorem noted (inStep : InStep F own w v) {w' v' : EventLoop} (left : w.Noted w')
    (right : v.Noted v') : InStep F own w' v' := by
  obtain ⟨journal, rfl⟩ := left
  obtain ⟨journal', rfl⟩ := right
  exact inStep.timeline ⟨inStep.clock.now, inStep.clock.sleeps⟩

/-- A fragment is handed in. -/
theorem register (inStep : InStep F own w v) {content content' : Nat → Rendering}
    (twins : FragmentTask.Twin F own ⟨w.registry.next, content w.registry.next⟩
      ⟨v.registry.next, content' v.registry.next⟩) :
    InStep F own (w.register content).2 (v.register content').2 := by
  have noted := inStep.note (.notice w.registry.registrationNotice)
    (.notice v.registry.registrationNotice)
  unfold EventLoop.register Registry.register
  rw [← inStep.closed]
  split
  · exact { noted with next := congrArg (· + 1) inStep.next, closed := rfl }
  · exact { noted with
      next := congrArg (· + 1) inStep.next
      pending := congrArg (· + 1) inStep.pending
      closed := rfl
      queue := by rw [inStep.queue, inStep.next]
      tasks := List.rel_append inStep.tasks (.cons twins .nil) }

end EventLoop.InStep

/-! ### Asking twins -/

namespace Rendering

/-- If a rendering is a fragment with a name in `F` that may be deferred, its value does not settle in
    time when it is asked. -/
def Misses (F : String → Prop) : Rendering → EventLoop → Prop
  | race r _ _, w => F r.pace.label.name → (r.poll w.timeline).1 ≠ .settled
  | _, _ => True

instance (F : String → Prop) [DecidablePred F] : ∀ (r : Rendering) (w : EventLoop),
    Decidable (r.Misses F w)
  | race r _ _, w =>
    inferInstanceAs (Decidable (F r.pace.label.name → (r.poll w.timeline).1 ≠ .settled))
  | done _, _ | failed _, _ | panicked _, _ | note _ _, _ | claim _ _, _ | number _ _, _
  | outstanding _, _ | register _ _, _ | wait _ _, _ | join _ _, _ | attempt _ _, _ =>
    inferInstanceAs (Decidable True)

/-- The values of all fragments with the names in `F` miss their timeouts. -/
def Missing (F : String → Prop) (asked : List (Rendering × EventLoop)) : Prop :=
  ∀ a ∈ asked, a.1.Misses F a.2

instance (F : String → Prop) [DecidablePred F] (asked : List (Rendering × EventLoop)) :
    Decidable (Missing F asked) :=
  inferInstanceAs (Decidable (∀ a ∈ asked, _))

/-- The fragment of which the fallback is called, with its slot. -/
def opened? : Rendering → Option (Label × Nat)
  | note (.fallback label slot) _ => some (label, slot)
  | _ => none

/-- The slots of the fragments with the names in `F`: those for which their fallbacks are called. -/
def OwnSlot (F : String → Prop) (asked : List (Rendering × EventLoop)) (slot : Nat) : Prop :=
  ∃ a ∈ asked, ∃ opened ∈ a.1.opened?, F opened.1.name ∧ opened.2 = slot

section

open EventLoop

variable {F : String → Prop} {all : List (Rendering × EventLoop)}

/-- What two runs have come to. -/
def BothAt {α : Type} (F : String → Prop) (all : List (Rendering × EventLoop))
    (R : α → α → Prop) (left left' : α × EventLoop) : Prop :=
  R left.1 left'.1 ∧ left.2.InStep F (OwnSlot F all) left'.2

mutual

/-- Twins remain so when both are asked at the same point of two runs. -/
theorem Twin.poll (missing : Missing F all) : ∀ {r r' : Rendering}, Twin F r r' →
    ∀ {w v : EventLoop}, w.InStep F (OwnSlot F all) v → r.asked w ⊆ all →
      BothAt F all (Twin F) (r.poll w) (r'.poll v)
  | _, _, .done markup, _, _, inStep, _ => ⟨.done markup, inStep⟩
  | _, _, .failed error, _, _, inStep, _ => ⟨.failed error, inStep⟩
  | _, _, .panicked message, _, _, inStep, _ => ⟨.panicked message, inStep⟩
  | _, _, .note event onward, _, _, inStep, inAll =>
    onward.poll missing (inStep.note event event) (List.subset_of_cons_subset inAll)
  | .claim cell _, _, .claim _ onward, w, v, inStep, inAll => by
    rw [Rendering.poll, Rendering.poll, ← inStep.used]
    have inAll := List.subset_of_cons_subset inAll
    by_cases isUsed : cell ∈ w.used
    · rw [if_pos isUsed, if_pos isUsed]
      exact ⟨.failed _, inStep⟩
    · rw [if_neg isUsed] at inAll
      rw [if_neg isUsed, if_neg isUsed]
      exact onward.poll missing { inStep with used := rfl } inAll
  | _, _, .number size onward, w, v, inStep, inAll => by
    rw [Rendering.poll, Rendering.poll, ← inStep.cells]
    exact (onward w.cells).poll missing { inStep with cells := rfl }
      (List.subset_of_cons_subset inAll)
  | _, _, .outstanding onward, w, v, inStep, inAll => by
    rw [Rendering.poll, Rendering.poll, ← inStep.pending]
    exact (onward w.registry.pending).poll missing inStep (List.subset_of_cons_subset inAll)
  | .register content _, .register content' _, .register handedIn onward, w, v, inStep, inAll => by
    have twins : FragmentTask.Twin F (OwnSlot F all) ⟨w.registry.next, content w.registry.next⟩
        ⟨v.registry.next, content' v.registry.next⟩ := by
      rw [← inStep.next]
      exact .same _ (handedIn w.registry.next)
    rw [Rendering.poll, Rendering.poll, register_fst, register_fst, ← inStep.next]
    exact (onward w.registry.next).poll missing (inStep.register twins)
      (List.subset_of_cons_subset inAll)
  | .register content _, .register content' _, .defer named handedIn onward, w, v, inStep, inAll => by
    have inAll := List.subset_of_cons_subset inAll
    -- The slot that the fragment gets is its own: its fallback is called right away.
    have mine : OwnSlot F all w.registry.next :=
      ⟨_, inAll (Rendering.mem_asked_self _ _), _, rfl, named, rfl⟩
    have twins : FragmentTask.Twin F (OwnSlot F all) ⟨w.registry.next, content w.registry.next⟩
        ⟨v.registry.next, content' v.registry.next⟩ := by
      rw [← inStep.next]
      exact .late mine (handedIn w.registry.next)
    rw [Rendering.poll, Rendering.poll, Rendering.poll, Rendering.poll, register_fst, register_fst,
      ← inStep.next]
    exact (onward w.registry.next).poll missing ((inStep.register twins).note _ _)
      (List.subset_of_cons_subset inAll)
  | .wait pace _, _, .wait _ onward, w, v, inStep, inAll => by
    obtain ⟨same, clock⟩ := pace.poll_agree inStep.clock
    rw [asked_wait] at inAll
    have inAll := List.subset_of_cons_subset inAll
    rw [poll_wait, poll_wait, ← same]
    cases stands : (pace.poll w.timeline).1 with
    | none =>
      rw [stands] at inAll
      exact onward.poll missing (inStep.timeline clock) inAll
    | some left => exact ⟨.wait left onward, inStep.timeline clock⟩
  | .race r _ _, _, .race _ settled timedOut, w, v, inStep, inAll => by
    obtain ⟨same, clock⟩ := r.poll_agree inStep.clock
    rw [asked_race] at inAll
    have inAll := List.subset_of_cons_subset inAll
    rw [poll_race, poll_race, ← same]
    cases stands : (r.poll w.timeline).1 <;> rw [stands] at inAll
    case settled => exact settled.poll missing (inStep.timeline clock) inAll
    case timedOut pace => exact (timedOut pace).poll missing (inStep.timeline clock) inAll
    case running left => exact ⟨.race left settled timedOut, inStep.timeline clock⟩
  | .race r _ _, _, .miss named inTime inTime' timedOut, w, v, inStep, inAll => by
    obtain ⟨same, clock⟩ := r.poll_agree inStep.clock
    -- The value does not settle in time.
    have late : (r.poll w.timeline).1 ≠ .settled :=
      missing _ (inAll (Rendering.mem_asked_self _ _)) named
    rw [asked_race] at inAll
    have inAll := List.subset_of_cons_subset inAll
    rw [poll_race, poll_race, ← same]
    cases stands : (r.poll w.timeline).1 <;> rw [stands] at inAll late
    case settled => exact absurd rfl late
    case timedOut pace => exact (timedOut pace).poll missing (inStep.timeline clock) inAll
    case running left =>
      have named : F left.pace.label.name := by
        rwa [Race.label_of_poll (.inr ⟨left.timer, Prod.ext stands rfl⟩)]
      exact ⟨.miss named inTime inTime' timedOut, inStep.timeline clock⟩
  | .join parts _, .join parts' _, .join twins onward, w, v, inStep, inAll => by
    rw [asked_join] at inAll
    have inAll := List.subset_of_cons_subset inAll
    obtain ⟨inParts, inNext⟩ := List.append_subset.1 inAll
    obtain ⟨kept, inStep⟩ := twins.pollAll missing (isPrompt parts.length) true inStep inParts
    -- What is left of the groups stands the same way.
    rw [poll_join, poll_join, ← twins.endsLike.length_eq, ← verdict_of_endsLike kept.endsLike]
    cases stands : verdict (Rendering.pollAll (isPrompt parts.length) true parts w).1 with
    | complete texts =>
      rw [stands] at inNext
      exact (onward texts).poll missing inStep inNext
    | failed error => exact ⟨.failed error, inStep⟩
    | panicked message => exact ⟨.panicked message, inStep⟩
    | waiting => exact ⟨.join kept onward, inStep⟩
  | .attempt body _, .attempt body' _, .attempt twins onward, w, v, inStep, inAll => by
    rw [asked_attempt] at inAll
    have inAll := List.subset_of_cons_subset inAll
    obtain ⟨inBody, inNext⟩ := List.append_subset.1 inAll
    obtain ⟨kept, inStep⟩ := twins.poll missing inStep inBody
    obtain ⟨waits, waits'⟩ | ⟨ended, same⟩ := kept.endsLike
    · rw [poll_attempt_of_waits waits, poll_attempt_of_waits waits']
      exact ⟨.attempt kept onward, inStep⟩
    · rw [poll_attempt, poll_attempt, ← same]
      cases stands : (body.poll w).1 <;> rw [stands] at inNext ended
      case done markup => exact (onward (.ok markup)).poll missing inStep inNext
      case failed error => exact (onward (.error error)).poll missing inStep inNext
      case panicked message => exact ⟨.panicked message, inStep⟩
      all_goals cases ended

/-- Groups of twins remain so. -/
theorem TwinAll.pollAll (missing : Missing F all) : ∀ {parts parts' : List Rendering},
    TwinAll F parts parts' → ∀ (prompt settled : Bool) {w v : EventLoop},
      w.InStep F (OwnSlot F all) v → askedOfAll prompt settled parts w ⊆ all →
        BothAt F all (TwinAll F) (pollAll prompt settled parts w) (pollAll prompt settled parts' v)
  | _, _, .nil, _, _, _, _, inStep, _ => ⟨.nil, inStep⟩
  | part :: rest, part' :: rest', .cons first others, prompt, settled, w, v, inStep, inAll => by
    rw [askedOfAll_cons] at inAll
    obtain ⟨inFirst, inRest⟩ := List.append_subset.1 inAll
    obtain ⟨kept, inStep⟩ := first.poll missing inStep inFirst
    rw [pollAll_cons, pollAll_cons, ← kept.endsLike.endsGroup_eq, ← kept.endsLike.isDone_eq]
    by_cases ends : (part.poll w).1.endsGroup prompt settled
    · rw [if_pos ends, if_pos ends]
      exact ⟨.cons kept others, inStep⟩
    · rw [if_neg ends] at inRest
      rw [if_neg ends, if_neg ends]
      obtain ⟨others, inStep⟩ :=
        others.pollAll missing prompt (settled && (part.poll w).1.isDone) inStep inRest
      exact ⟨.cons kept others, inStep⟩

end

end

end Rendering

end ProgressiveHtml
