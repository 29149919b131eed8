import ProgressiveHtml.EventLoop.Wait
import ProgressiveHtml.Node

namespace ProgressiveHtml

/-!
# Waiting — single values, races and trees

What the main task can wait for besides streams: an eventual value, the race of such a value
against a timer, and the markup of a tree.

* `Eventual.settle`, `Eventual.race` — wait for a value, or for it and a timer;
* `Node.render` — render the same tree several times, one after the other;
* `showFailure` — render a failure.
-/

/-- What a race came to. -/
inductive RaceOutcome (α : Type) where
  /-- The value settled in time. -/
  | settled (result : α)
  /-- The timer was first; the value goes on from where it is. -/
  | timedOut (pace : Pace)

namespace Eventual

variable {α : Type} (value : Eventual α)

/-- A value as something to wait for. -/
def awaitable : Awaitable Pace α where
  poll pace w :=
    match pace.poll w.timeline with
    | (some pace, timeline) => (.pending pace, { w with timeline })
    | (none, timeline) =>
      match value.panic? with
      | some message => (.panicked message, { w with timeline })
      | none => (.ready value.result pace, { w with timeline })
  alarms pace := pace.alarm?.toList

/-- A value and a timer as something to wait for. -/
def raceAwaitable : Awaitable Race (RaceOutcome α) where
  poll race w :=
    match race.poll w.timeline with
    | (.running race, timeline) => (.pending race, { w with timeline })
    | (.timedOut pace, timeline) => (.ready (.timedOut pace) race, { w with timeline })
    | (.settled, timeline) =>
      match value.panic? with
      | some message => (.panicked message, { w with timeline })
      | none => (.ready (.settled value.result) race, { w with timeline })
  alarms := Race.alarms

/-- Wait for a value that has got as far as `pace`: its result, nothing, or a panic. -/
def settle (pace : Pace) (w : EventLoop) : Except String (Option α) × EventLoop :=
  match w.wait value.awaitable 0 (w.now + EventLoop.patience) pace with
  | (.ready result _, w) => (.ok (some result), w)
  | (.expired _, w) => (.ok none, w)
  | (.panicked message, w) => (.error message, w)

/-- Race a value against a timer: the outcome, nothing, or a panic. -/
def race (timeout : Nat) (w : EventLoop) : Except String (Option (RaceOutcome α)) × EventLoop :=
  match
    w.wait value.raceAwaitable 0 (w.now + EventLoop.patience) (.start value.pace timeout)
  with
  | (.ready outcome _, w) => (.ok (some outcome), w)
  | (.expired _, w) => (.ok none, w)
  | (.panicked message, w) => (.error message, w)

end Eventual

/-- Wait for a rendering, but not longer than `patience`: its markup or its error, nothing, or a
    panic. -/
def Rendering.runWithin (turns patience : Nat) (r : Rendering) (w : EventLoop) :
    Except String (Option (Except RenderError String)) × EventLoop :=
  match w.wait Rendering.awaitable turns (w.now + patience) r with
  | (.ready result _, w) => (.ok (some result), w)
  | (.expired _, w) => (.ok none, w)
  | (.panicked message, w) => (.error message, w)

/-- Wait for a rendering as long as the main task waits for anything. -/
def Rendering.run (turns : Nat) (r : Rendering) (w : EventLoop) :
    Except String (Option (Except RenderError String)) × EventLoop :=
  r.runWithin turns EventLoop.patience w

/-- When a rendering ended, and how; `none` when it did not. -/
structure RenderedAt where
  time : Nat
  result : Option (Except RenderError String)

/-- Run the same rendering several times, one after the other, up to the first panic; each time it is
    waited for no longer than `patience`. -/
def Rendering.runTimes (turns patience : Nat) (r : Rendering) :
    Nat → EventLoop → Except String (List RenderedAt) × EventLoop
  | 0, w => (.ok [], w)
  | times + 1, w =>
    match r.runWithin turns patience w with
    | (.error message, w) => (.error message, w)
    | (.ok result, w) =>
      match runTimes turns patience r times w with
      | (runs, later) => (runs.map (⟨w.now, result⟩ :: ·), later)

/-- Render the same tree several times, one after the other. -/
def Node.render (node : Node) (env : Environment) (times : Nat) (w : EventLoop) :
    Except String (List RenderedAt) × EventLoop :=
  (node.rendering env w.cells).runTimes (node.fragments env + 1) EventLoop.patience times
    { w with cells := w.cells + node.cells }

/-- A fragment whose callbacks build trees, in the environment in which it stands. -/
def Fragment.ofCallbacks (value : Eventual (Except Chain String)) (render : String → Built)
    (onError : Option (Chain → Built)) (env : Environment) : Fragment :=
  { value
    shown := fun text => (render text).rendering env
    onError := onError.map fun build error => (build error).rendering? env }

/-- Render a failure with a callback, or with the built-in node when there is none or it panics. -/
def showFailure (label : Label) (onError : Option (Chain → Built)) (error : Chain)
    (env : Environment) (w : EventLoop) :
    Except String (Option (Except RenderError String)) × EventLoop :=
  let callback := onError.map fun build error => (build error).rendering? env
  let turns := ((onError.map fun build => (build error).fragments env).getD 0) + 1
  (failureRendering label callback error).run turns w

end ProgressiveHtml
