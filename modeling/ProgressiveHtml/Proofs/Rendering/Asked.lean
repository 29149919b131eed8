import ProgressiveHtml.Proofs.Rendering.Step

namespace ProgressiveHtml

/-!
# Renderings — what is asked meanwhile

A rendering that is asked to go on asks its parts, and goes on with what is left.  All of these are
renderings that are asked at the same instant, one after the other.

* `Rendering.asked` — the renderings that are asked while a rendering goes on;
* `Rendering.Unfailing` — none of them fails;
* `EventLoop.AtOnce` — what is true of the states at one instant.
-/

namespace Rendering

mutual

/-- The renderings that are asked while a rendering goes on, itself included, each with the state in
    which it is asked, in order. -/
def asked : Rendering → EventLoop → List (Rendering × EventLoop)
  | done markup, w => [(done markup, w)]
  | failed error, w => [(failed error, w)]
  | panicked message, w => [(panicked message, w)]
  | note event next, w => (note event next, w) :: next.asked (w.note event)
  | claim cell next, w =>
    (claim cell next, w) ::
      if cell ∈ w.used then [] else next.asked { w with used := cell :: w.used }
  | number size next, w =>
    (number size next, w) :: (next w.cells).asked { w with cells := w.cells + size }
  | outstanding next, w => (outstanding next, w) :: (next w.registry.pending).asked w
  | register content next, w =>
    (register content next, w) :: (next (w.register content).1).asked (w.register content).2
  | wait pace next, w =>
    (wait pace next, w) ::
      match pace.poll w.timeline with
      | (none, timeline) => next.asked { w with timeline }
      | (some _, _) => []
  | race r inTime late, w =>
    (race r inTime late, w) ::
      match r.poll w.timeline with
      | (.settled, timeline) => inTime.asked { w with timeline }
      | (.timedOut pace, timeline) => (late pace).asked { w with timeline }
      | (.running _, _) => []
  | join parts next, w =>
    (join parts next, w) ::
      (askedOfAll (isPrompt parts.length) true parts w ++
        match pollAll (isPrompt parts.length) true parts w with
        | (parts, w) =>
          match verdict parts with
          | .complete markup => (next markup).asked w
          | _ => [])
  | attempt body next, w =>
    (attempt body next, w) ::
      (body.asked w ++
        match body.poll w with
        | (done markup, w) => (next (.ok markup)).asked w
        | (failed error, w) => (next (.error error)).asked w
        | _ => [])
termination_by structural r => r

/-- The renderings that are asked while siblings go on in order. -/
def askedOfAll (prompt settled : Bool) :
    List Rendering → EventLoop → List (Rendering × EventLoop)
  | [], _ => []
  | part :: rest, w =>
    part.asked w ++
      match part.poll w with
      | (part, w) =>
        if part.endsGroup prompt settled then []
        else askedOfAll prompt (settled && part.isDone) rest w
termination_by structural parts => parts

end

section

variable (w : EventLoop)

/-- What else is asked when a rendering that waits for a value is, by whether the value is there. -/
theorem asked_wait (pace : Pace) (next : Rendering) :
    (wait pace next).asked w =
      (wait pace next, w) ::
        match (pace.poll w.timeline).1 with
        | none => next.asked { w with timeline := (pace.poll w.timeline).2 }
        | some _ => [] := by
  rw [asked]
  rcases pace.poll w.timeline with ⟨_ | left, later⟩ <;> rfl

/-- What else is asked when a race is, by how it stands. -/
theorem asked_race (r : Race) (inTime : Rendering) (late : Pace → Rendering) :
    (race r inTime late).asked w =
      (race r inTime late, w) ::
        match (r.poll w.timeline).1 with
        | .settled => inTime.asked { w with timeline := (r.poll w.timeline).2 }
        | .timedOut pace => (late pace).asked { w with timeline := (r.poll w.timeline).2 }
        | .running _ => [] := by
  rw [asked]
  rcases r.poll w.timeline with ⟨_ | _ | _, later⟩ <;> rfl

/-- What else is asked when a group is, by how what is left of it stands. -/
theorem asked_join (parts : List Rendering) (next : List String → Rendering) :
    (join parts next).asked w =
      (join parts next, w) ::
        (askedOfAll (isPrompt parts.length) true parts w ++
          match verdict (pollAll (isPrompt parts.length) true parts w).1 with
          | .complete texts => (next texts).asked (pollAll (isPrompt parts.length) true parts w).2
          | _ => []) := by
  rw [asked]

/-- What else is asked when an attempt is, by what is left of its body. -/
theorem asked_attempt (body : Rendering) (next : Except RenderError String → Rendering) :
    (attempt body next).asked w =
      (attempt body next, w) ::
        (body.asked w ++
          match (body.poll w).1 with
          | done markup => (next (.ok markup)).asked (body.poll w).2
          | failed error => (next (.error error)).asked (body.poll w).2
          | _ => []) := by
  rw [asked]
  rcases body.poll w with ⟨left, later⟩
  cases left <;> rfl

/-- The siblings after one that is asked are asked, unless that one ends the group. -/
theorem askedOfAll_cons (prompt settled : Bool) (part : Rendering) (rest : List Rendering) :
    askedOfAll prompt settled (part :: rest) w =
      part.asked w ++
        if (part.poll w).1.endsGroup prompt settled then []
        else askedOfAll prompt (settled && (part.poll w).1.isDone) rest (part.poll w).2 := rfl

end

/-- The rendering itself is asked first. -/
theorem mem_asked_self (r : Rendering) (w : EventLoop) : (r, w) ∈ r.asked w := by
  cases r <;> simp [asked]

/-- Whether a rendering has failed or panicked. -/
def fails : Rendering → Bool
  | failed _ | panicked _ => true
  | _ => false

/-- None of the renderings that were asked fails or panics. -/
def Unfailing (asked : List (Rendering × EventLoop)) : Prop :=
  ∀ a ∈ asked, (a.1.poll a.2).1.fails = false

instance (asked : List (Rendering × EventLoop)) : Decidable (Unfailing asked) :=
  inferInstanceAs (Decidable (∀ a ∈ asked, _))

namespace Unfailing

variable {asked later : List (Rendering × EventLoop)} {a : Rendering × EventLoop}

@[simp] theorem unfailing_append :
    Unfailing (asked ++ later) ↔ Unfailing asked ∧ Unfailing later := by
  simp [Unfailing, or_imp, forall_and]

@[simp] theorem unfailing_cons :
    Unfailing (a :: later) ↔ (a.1.poll a.2).1.fails = false ∧ Unfailing later := by
  simp [Unfailing]

/-- A rendering that is asked does not fail itself. -/
theorem sound {r : Rendering} {w : EventLoop} (calm : Unfailing (r.asked w)) :
    (r.poll w).1.fails = false :=
  calm _ (r.mem_asked_self w)

/-- The first of several siblings does not fail. -/
theorem head {prompt settled : Bool} {part : Rendering} {rest : List Rendering} {w : EventLoop}
    (calm : Unfailing (askedOfAll prompt settled (part :: rest) w)) : Unfailing (part.asked w) := by
  rw [askedOfAll, unfailing_append] at calm
  exact calm.1

/-- A content that was asked for was not used up before. -/
theorem notMem_used {cell : Nat} {value : Rendering} {v : EventLoop} (calm : Unfailing asked)
    (isAsked : (claim cell value, v) ∈ asked) : cell ∉ v.used := fun used => by
  simpa [poll, used, fails] using calm _ isAsked

end Unfailing

end Rendering

/-! ### States at one instant -/

namespace EventLoop

/-- What is true of a later state at the same instant: no content comes back. -/
structure AtOnce (w w' : EventLoop) : Prop where
  now : w'.now = w.now
  used : w.used ⊆ w'.used
  closed : w'.registry.closed = w.registry.closed
  queue : w.registry.queue ⊆ w'.registry.queue
  ready : w'.registry.ready = w.registry.ready

namespace AtOnce

variable {w w' w'' : EventLoop}

theorem refl (w : EventLoop) : w.AtOnce w := ⟨rfl, List.Subset.refl _, rfl, List.Subset.refl _, rfl⟩

theorem trans (first : w.AtOnce w') (second : w'.AtOnce w'') : w.AtOnce w'' where
  now := second.now.trans first.now
  used := List.Subset.trans first.used second.used
  closed := second.closed.trans first.closed
  queue := List.Subset.trans first.queue second.queue
  ready := second.ready.trans first.ready

/-- Handing in a fragment. -/
theorem register (w : EventLoop) (content : Nat → Rendering) :
    w.AtOnce (w.register content).2 where
  now := rfl
  used := List.Subset.refl _
  closed := w.registry.register_closed content
  queue := by
    rw [register_registry, Registry.register]
    split
    · exact List.Subset.refl _
    · exact List.subset_append_left _ _
  ready := w.registry.register_ready content

/-- Asking something that only looks at the clock and the journal. -/
theorem timeline (w : EventLoop) {timeline : Timeline} (now : timeline.now = w.now) :
    w.AtOnce { w with timeline } :=
  ⟨now, List.Subset.refl _, rfl, List.Subset.refl _, rfl⟩

end AtOnce

end EventLoop

namespace Rendering

open EventLoop

/-- Nothing that a rendering does takes time. -/
theorem Step.atOnce {r r' : Rendering} {w w' : EventLoop} {handed : List Registration}
    (step : Step r w handed r' w') : w.AtOnce w' := by
  induction step with
  | note event next w => exact ⟨rfl, List.Subset.refl _, rfl, List.Subset.refl _, rfl⟩
  | claim fresh next => exact ⟨rfl, List.subset_cons_self _ _, rfl, List.Subset.refl _, rfl⟩
  | number => exact ⟨rfl, List.Subset.refl _, rfl, List.Subset.refl _, rfl⟩
  | register content next w => exact .register w content
  | @wait pace _ _ w asked | @settle pace _ w asked =>
    have same := pace.poll_now w.timeline
    rw [asked] at same
    exact .timeline w same
  | @race r _ _ w asked | @inTime r _ w asked | @late r _ _ w asked =>
    have same := r.poll_now w.timeline
    rw [asked] at same
    exact .timeline w same
  | part _ _ _ _ ih => exact ih
  | body _ _ ih => exact ih
  | _ => exact .refl _

theorem Steps.atOnce {r r' : Rendering} {w w' : EventLoop} {handed : List Registration}
    (steps : Steps r w handed r' w') : w.AtOnce w' := by
  induction steps with
  | refl => exact .refl _
  | head step _ ih => exact step.atOnce.trans ih

theorem poll_atOnce (r : Rendering) (w : EventLoop) : w.AtOnce (r.poll w).2 := by
  obtain ⟨handed, steps⟩ := r.poll_steps w
  exact steps.atOnce

/-- Siblings do what their group does. -/
theorem pollAll_atOnce (prompt settled : Bool) (parts : List Rendering) (w : EventLoop) :
    w.AtOnce (pollAll prompt settled parts w).2 := by
  obtain ⟨handed, steps⟩ := pollAll_steps prompt settled [] parts (fun _ => done "") w
  exact steps.atOnce

mutual

/-- Whatever is asked meanwhile is asked at the same instant. -/
theorem asked_atOnce (r : Rendering) (w : EventLoop) {a : Rendering × EventLoop}
    (isAsked : a ∈ r.asked w) : w.AtOnce a.2 := by
  -- What else is asked is asked by what is left after a step, and steps take no time.
  by_cases isSelf : a = (r, w)
  · exact isSelf ▸ .refl w
  cases r <;> rw [asked] at isAsked <;>
    have later := (List.mem_cons.1 isAsked).resolve_left isSelf
  case done | failed | panicked => cases later
  case note event next =>
    exact (Step.note event next w).atOnce.trans (next.asked_atOnce _ later)
  case claim cell next =>
    split at later
    · cases later
    · rename_i fresh
      exact (Step.claim fresh next).atOnce.trans (next.asked_atOnce _ later)
  case number size next =>
    exact (Step.number size next w).atOnce.trans ((next _).asked_atOnce _ later)
  case outstanding next => exact (next _).asked_atOnce _ later
  case register content next =>
    exact (AtOnce.register w content).trans ((next _).asked_atOnce _ later)
  case wait pace next =>
    split at later
    · rename_i settled
      exact (Step.settle settled next).atOnce.trans (next.asked_atOnce _ later)
    · cases later
  case race r inTime late =>
    split at later
    · rename_i settled
      exact (Step.inTime settled inTime late).atOnce.trans (inTime.asked_atOnce _ later)
    · rename_i timedOut
      exact (Step.late timedOut inTime late).atOnce.trans ((late _).asked_atOnce _ later)
    · cases later
  case join parts next =>
    obtain inside | onward := List.mem_append.1 later
    · exact askedOfAll_atOnce _ _ parts w inside
    · have before := pollAll_atOnce (isPrompt parts.length) true parts w
      dsimp only at onward
      split at onward
      · exact before.trans ((next _).asked_atOnce _ onward)
      · cases onward
  case attempt body next =>
    obtain inside | onward := List.mem_append.1 later
    · exact body.asked_atOnce w inside
    · have before := body.poll_atOnce w
      split at onward
      · rename_i polled
        rw [polled] at before
        exact before.trans ((next _).asked_atOnce _ onward)
      · rename_i polled
        rw [polled] at before
        exact before.trans ((next _).asked_atOnce _ onward)
      · cases onward
termination_by structural r

theorem askedOfAll_atOnce (prompt settled : Bool) (parts : List Rendering) (w : EventLoop)
    {a : Rendering × EventLoop} (isAsked : a ∈ askedOfAll prompt settled parts w) :
    w.AtOnce a.2 := by
  cases parts with
  | nil => cases isAsked
  | cons part rest =>
    rw [askedOfAll_cons] at isAsked
    obtain inside | onward := List.mem_append.1 isAsked
    · exact part.asked_atOnce w inside
    · split at onward
      · cases onward
      · exact (part.poll_atOnce w).trans (askedOfAll_atOnce _ _ rest _ onward)
termination_by structural parts

end

end Rendering

end ProgressiveHtml
