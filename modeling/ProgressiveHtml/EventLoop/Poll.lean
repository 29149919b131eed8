import ProgressiveHtml.EventLoop.Basic

namespace ProgressiveHtml

/-!
# Event loop — going on

A rendering is asked to go on, and goes on until it is over or can only wait.  Fragments that were
woken go on in the order in which they were woken.

* `Rendering.poll` — go on with a rendering as far as it gets;
* `Rendering.poll_wait`, `poll_race`, `poll_join`, `poll_attempt` — how it goes on, by what its parts
  have come to;
* `Rendering.poll_now` — no time passes meanwhile;
* `EventLoop.runTask`, `EventLoop.runQueue` — let woken fragments go on.
-/

namespace Rendering

mutual

/-- Go on with a rendering as far as it gets now. -/
def poll : Rendering → EventLoop → Rendering × EventLoop
  | done markup, w => (done markup, w)
  | failed error, w => (failed error, w)
  | panicked message, w => (panicked message, w)
  | note event next, w => next.poll (w.note event)
  | claim cell next, w =>
    if cell ∈ w.used then (failed .consumed, w)
    else next.poll { w with used := cell :: w.used }
  | number size next, w => (next w.cells).poll { w with cells := w.cells + size }
  | outstanding next, w => (next w.registry.pending).poll w
  | register content next, w => (next (w.register content).1).poll (w.register content).2
  | wait pace next, w =>
    match pace.poll w.timeline with
    | (none, timeline) => next.poll { w with timeline }
    | (some pace, timeline) => (wait pace next, { w with timeline })
  | race r inTime late, w =>
    match r.poll w.timeline with
    | (.settled, timeline) => inTime.poll { w with timeline }
    | (.timedOut pace, timeline) => (late pace).poll { w with timeline }
    | (.running r, timeline) => (race r inTime late, { w with timeline })
  | join parts next, w =>
    match pollAll (isPrompt parts.length) true parts w with
    | (parts, w) =>
      match verdict parts with
      | .complete markup => (next markup).poll w
      | .failed error => (failed error, w)
      | .panicked message => (panicked message, w)
      | .waiting => (join parts next, w)
  | attempt body next, w =>
    match body.poll w with
    | (done markup, w) => (next (.ok markup)).poll w
    | (failed error, w) => (next (.error error)).poll w
    | (panicked message, w) => (panicked message, w)
    | (body, w) => (attempt body next, w)
termination_by structural r => r

/-- Go on with siblings in order, until one of them ends the group; `settled` tells whether
    everything before them is there.  Also in a group of more than `promptLimit` siblings each of them
    is asked in its turn, not those first whose sleeps were over first. -/
def pollAll (prompt settled : Bool) : List Rendering → EventLoop → List Rendering × EventLoop
  | [], w => ([], w)
  | part :: rest, w =>
    match part.poll w with
    | (part, w) =>
      if part.endsGroup prompt settled then (part :: rest, w)
      else
        match pollAll prompt (settled && part.isDone) rest w with
        | (rest, w) => (part :: rest, w)
termination_by structural parts => parts

end

/-- What is over stays as it is. -/
theorem poll_of_isOver {r : Rendering} (h : r.isOver) (w : EventLoop) : r.poll w = (r, w) := by
  cases r with
  | done | failed | panicked => rfl
  | _ => simp [isOver] at h

section

variable (w : EventLoop)

/-- A rendering that waits for a value, by whether the value is there. -/
theorem poll_wait (pace : Pace) (next : Rendering) :
    (wait pace next).poll w =
      match (pace.poll w.timeline).1 with
      | none => next.poll { w with timeline := (pace.poll w.timeline).2 }
      | some left => (wait left next, { w with timeline := (pace.poll w.timeline).2 }) := by
  rw [poll]
  rcases pace.poll w.timeline with ⟨_ | left, later⟩ <;> rfl

/-- A race, by how it stands. -/
theorem poll_race (r : Race) (inTime : Rendering) (late : Pace → Rendering) :
    (race r inTime late).poll w =
      match (r.poll w.timeline).1 with
      | .settled => inTime.poll { w with timeline := (r.poll w.timeline).2 }
      | .timedOut pace => (late pace).poll { w with timeline := (r.poll w.timeline).2 }
      | .running left => (race left inTime late, { w with timeline := (r.poll w.timeline).2 }) := by
  rw [poll]
  rcases r.poll w.timeline with ⟨_ | _ | _, later⟩ <;> rfl

/-- A group, by how what is left of it stands. -/
theorem poll_join (parts : List Rendering) (next : List String → Rendering) :
    (join parts next).poll w =
      match verdict (pollAll (isPrompt parts.length) true parts w).1 with
      | .complete texts => (next texts).poll (pollAll (isPrompt parts.length) true parts w).2
      | .failed error => (failed error, (pollAll (isPrompt parts.length) true parts w).2)
      | .panicked message => (panicked message, (pollAll (isPrompt parts.length) true parts w).2)
      | .waiting =>
        (join (pollAll (isPrompt parts.length) true parts w).1 next,
          (pollAll (isPrompt parts.length) true parts w).2) := by
  rw [poll]

/-- An attempt, by what is left of its body. -/
theorem poll_attempt (body : Rendering) (next : Except RenderError String → Rendering) :
    (attempt body next).poll w =
      match (body.poll w).1 with
      | done markup => (next (.ok markup)).poll (body.poll w).2
      | failed error => (next (.error error)).poll (body.poll w).2
      | panicked message => (panicked message, (body.poll w).2)
      | left => (attempt left next, (body.poll w).2) := by
  rw [poll]
  rcases body.poll w with ⟨left, later⟩
  cases left <;> rfl

/-- The siblings after one that goes on are asked, unless that one ends the group. -/
theorem pollAll_cons (prompt settled : Bool) (part : Rendering) (rest : List Rendering) :
    pollAll prompt settled (part :: rest) w =
      if (part.poll w).1.endsGroup prompt settled then ((part.poll w).1 :: rest, (part.poll w).2)
      else
        ((part.poll w).1 ::
            (pollAll prompt (settled && (part.poll w).1.isDone) rest (part.poll w).2).1,
          (pollAll prompt (settled && (part.poll w).1.isDone) rest (part.poll w).2).2) := rfl

end

mutual

/-- No time passes while a rendering goes on. -/
@[simp] theorem poll_now (r : Rendering) (w : EventLoop) : (r.poll w).2.now = w.now := by
  cases r with
  | done | failed | panicked => rfl
  | note event next => exact next.poll_now _
  | claim cell next =>
    rw [poll]
    split
    · rfl
    · exact next.poll_now _
  | number size next => exact (next _).poll_now _
  | outstanding next => exact (next _).poll_now _
  | register content next => exact (next _).poll_now _
  | wait pace next =>
    have same := pace.poll_now w.timeline
    rw [poll_wait]
    cases (pace.poll w.timeline).1 with
    | none => exact (next.poll_now _).trans same
    | some left => exact same
  | race r inTime late =>
    have same := r.poll_now w.timeline
    rw [poll_race]
    cases (r.poll w.timeline).1 with
    | settled => exact (inTime.poll_now _).trans same
    | timedOut pace => exact ((late pace).poll_now _).trans same
    | running left => exact same
  | join parts next =>
    have same := pollAll_now (isPrompt parts.length) true parts w
    rw [poll_join]
    cases verdict (pollAll (isPrompt parts.length) true parts w).1 with
    | complete texts => exact ((next texts).poll_now _).trans same
    | failed | panicked | waiting => exact same
  | attempt body next =>
    have same := body.poll_now w
    rw [poll_attempt]
    cases (body.poll w).1 with
    | done markup => exact ((next (.ok markup)).poll_now _).trans same
    | failed error => exact ((next (.error error)).poll_now _).trans same
    | _ => exact same
termination_by structural r

/-- No time passes while siblings go on. -/
theorem pollAll_now (prompt settled : Bool) (parts : List Rendering) (w : EventLoop) :
    (pollAll prompt settled parts w).2.now = w.now := by
  cases parts with
  | nil => rfl
  | cons part rest =>
    have same := part.poll_now w
    rw [pollAll_cons]
    split
    · exact same
    · exact (pollAll_now prompt (settled && (part.poll w).1.isDone) rest _).trans same
termination_by structural parts

end

end Rendering

namespace EventLoop

/-- Let the fragment with a slot go on. -/
def runTask (slot : Nat) (w : EventLoop) : EventLoop :=
  match w.registry.task? slot with
  | none => w
  | some work =>
    match work.poll w with
    | (work, w) =>
      match Registry.item? slot work with
      | some item => { w with registry := w.registry.deliver slot item }
      | none => { w with registry := w.registry.keep slot work }

/-- Let the fragment that was woken first go on. -/
def runNext (w : EventLoop) : EventLoop :=
  match w.registry.queue with
  | [] => w
  | slot :: rest => runTask slot { w with registry := { w.registry with queue := rest } }

/-- Let woken fragments go on until none is left, but at most `turns` times. -/
def runQueue : Nat → EventLoop → EventLoop
  | 0, w => w
  | turns + 1, w => if w.registry.queue.isEmpty then w else runQueue turns w.runNext

end EventLoop

end ProgressiveHtml
