import ProgressiveHtml.Chunk
import ProgressiveHtml.Eventual

namespace ProgressiveHtml

/-!
# Renderings — rendering that can be suspended

A `Rendering` is what is left to do of a rendering: it is done, has failed or has panicked, or it
names the next thing to do and how to go on.  Siblings are rendered side by side, as the parts of
a `join`.

* `Rendering` — the states of a rendering;
* `Rendering.andThen` — go on with the markup once it is there;
* `Rendering.alarms` — the sleeps that a rendering is waiting for;
* `Verdict`, `Rendering.verdict` — how a group of siblings stands.
-/

/-- What is left to do of a rendering. -/
inductive Rendering where
  /-- The markup is there. -/
  | done (markup : String)
  /-- It ended with an error. -/
  | failed (error : RenderError)
  /-- It ended with a panic. -/
  | panicked (message : String)
  /-- Write an event to the journal. -/
  | note (event : Event) (next : Rendering)
  /-- Use up the content numbered `cell`, which can be used only once. -/
  | claim (cell : Nat) (next : Rendering)
  /-- Number the contents of a tree of `size` cells that has just been built. -/
  | number (size : Nat) (next : Nat → Rendering)
  /-- Ask how many late fragments are outstanding. -/
  | outstanding (next : Nat → Rendering)
  /-- Hand a late fragment to the registry and get the number of its slot. -/
  | register (fragment : Nat → Rendering) (next : Nat → Rendering)
  /-- Wait for a value. -/
  | wait (pace : Pace) (next : Rendering)
  /-- Wait for a value, but not longer than a timer. -/
  | race (race : Race) (inTime : Rendering) (late : Pace → Rendering)
  /-- Render siblings side by side and go on with their markup. -/
  | join (parts : List Rendering) (next : List String → Rendering)
  /-- Go on with the markup or the error of a rendering. -/
  | attempt (body : Rendering) (next : Except RenderError String → Rendering)

namespace Rendering

/-- Go on with the markup of a rendering once it is there.  An error or a panic is passed on. -/
def andThen : Rendering → (String → Rendering) → Rendering
  | done markup, k => k markup
  | failed error, _ => failed error
  | panicked message, _ => panicked message
  | note event next, k => note event (next.andThen k)
  | claim cell next, k => claim cell (next.andThen k)
  | number size next, k => number size fun first => (next first).andThen k
  | outstanding next, k => outstanding fun pending => (next pending).andThen k
  | register fragment next, k => register fragment fun slot => (next slot).andThen k
  | wait pace next, k => wait pace (next.andThen k)
  | race r inTime late, k => race r (inTime.andThen k) fun pace => (late pace).andThen k
  | join parts next, k => join parts fun markup => (next markup).andThen k
  | attempt body next, k => attempt body fun result => (next result).andThen k

@[simp] theorem andThen_done (r : Rendering) : r.andThen done = r := by
  induction r using Rendering.rec (motive_2 := fun _ => True) with
  | done | failed | panicked => rfl
  | note | claim | wait => simp_all [andThen]
  | number | outstanding | register | join | attempt | race => simp_all [andThen]
  | nil | cons => trivial

/-- Siblings side by side, one after the other in the markup. -/
def group (parts : List Rendering) : Rendering :=
  join parts fun markup => done (String.join markup)

/-- The same rendering `n` times in a row. -/
def times : Nat → Rendering → Rendering
  | 0, _ => done ""
  | n + 1, r => r.andThen fun first => (times n r).andThen fun rest => done (first ++ rest)

/-- Whether the rendering has come to an end. -/
def isOver : Rendering → Bool
  | done _ | failed _ | panicked _ => true
  | _ => false

/-- Whether the markup is there. -/
def isDone : Rendering → Bool
  | done _ => true
  | _ => false

mutual

/-- The sleeps that a rendering is waiting for. -/
def alarms : Rendering → List Alarm
  | wait pace _ => pace.alarm?.toList
  | race r _ _ => r.alarms
  | join parts _ => alarmsOfAll parts
  | attempt body _ => body.alarms
  | _ => []

/-- The sleeps that a group of siblings is waiting for. -/
def alarmsOfAll : List Rendering → List Alarm
  | [] => []
  | part :: rest => part.alarms ++ alarmsOfAll rest

end

end Rendering

/-- Once an eventual value has taken its time: its panic, or going on with its result. -/
def Eventual.conclude {α : Type} (value : Eventual α) (next : α → Rendering) : Rendering :=
  match value.panic? with
  | some message => .panicked message
  | none => next value.result

/-- How a group of siblings stands. -/
inductive Verdict where
  /-- All of them are there. -/
  | complete (markup : List String)
  /-- One of them failed. -/
  | failed (error : RenderError)
  /-- One of them panicked. -/
  | panicked (message : String)
  /-- Some are still to come. -/
  | waiting

namespace Rendering

/-- A group of at most this many siblings fails as soon as one of them fails.  In a larger group a
    failure counts only once everything before it is there. -/
def promptLimit : Nat := 30

/-- Whether a group of so many siblings fails as soon as one of them does. -/
def isPrompt (size : Nat) : Bool := size ≤ promptLimit

/-- Whether a sibling in this state ends its group: a panic always does, a failure when the group is
    prompt or when everything before it is there (`settled`). -/
def endsGroup (part : Rendering) (prompt settled : Bool) : Bool :=
  match part with
  | panicked _ => true
  | failed _ => prompt || settled
  | _ => false

/-- How a group stands, `settled` telling whether everything before these parts is there. -/
def verdictFrom (prompt : Bool) : Bool → List Rendering → Verdict
  | true, [] => .complete []
  | false, [] => .waiting
  | settled, part :: rest =>
    match part with
    | panicked message => .panicked message
    | failed error => if prompt || settled then .failed error else verdictFrom prompt false rest
    | done markup =>
      match verdictFrom prompt settled rest with
      | .complete texts => .complete (markup :: texts)
      | other => other
    | _ => verdictFrom prompt false rest

/-- How a group of siblings stands. -/
def verdict (parts : List Rendering) : Verdict :=
  verdictFrom (isPrompt parts.length) true parts

end Rendering

end ProgressiveHtml
