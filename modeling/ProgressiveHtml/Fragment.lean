import ProgressiveHtml.Markup.Element
import ProgressiveHtml.Rendering

namespace ProgressiveHtml

/-!
# Fragments — inline or deferred

A fragment shows a value that takes its time.  Where nothing can be deferred it waits for the value
however long that takes.  Elsewhere the value gets a timeout: if it settles in time, the fragment
stands inline; if not, the fragment goes to the registry, its fallback stands inline inside a
placeholder, and its content will come as a patch.

* `Fragment.settled` — what is shown once the value is there;
* `Fragment.late` — the content of a fragment that missed its timeout;
* `Fragment.rendering` — the decision between inline and deferred;
* `failureRendering` — how a failure is shown;
* `failureRendering_keeps` — what holds of it.
-/

/-- The built-in markup for a failure. -/
def failureMarkup (message : String) : String :=
  Markup.element "div" [("class", "deferred-error")] [Markup.escape message]

/-- Show a failure with a callback, or with the built-in markup when there is no callback or the
    callback panics (`none`). -/
def failureRendering (label : Label) (onError : Option (Chain → Option Rendering))
    (error : Chain) : Rendering :=
  match onError with
  | none => .done (failureMarkup error.full)
  | some callback =>
    .note (.failure label) <|
      match callback error with
      | some shown => shown
      | none =>
        .note (.notice (.failureRenderPanicked error)) (.done (failureMarkup error.full))

/-- What holds of the built-in markup and of what the callback makes of a failure, and of everything that
    reports something first, holds of how the failure is shown. -/
theorem failureRendering_keeps {P : Rendering → Prop} (label : Label)
    {onError : Option (Chain → Option Rendering)} {error : Chain}
    (plain : P (.done (failureMarkup error.full)))
    (noted : ∀ event next, P next → P (.note event next))
    (onward : ∀ callback ∈ onError, ∀ shown ∈ callback error, P shown) :
    P (failureRendering label onError error) := by
  cases onError with
  | none => exact plain
  | some callback =>
    apply noted
    cases built : callback error with
    | some shown => exact onward callback rfl shown built
    | none => exact noted _ _ plain

/-- A fragment: its value and how the result is shown, in the environment in which it stands. -/
structure Fragment where
  /-- The value, which settles with a text or with a failure. -/
  value : Eventual (Except Chain String)
  /-- What the callback for the value renders. -/
  shown : String → Rendering
  /-- What the callback for a failure renders, if there is one; `none` when it panics. -/
  onError : Option (Chain → Option Rendering)

namespace Fragment

/-- The label of the fragment in the journal. -/
def label (f : Fragment) : Label := f.value.pace.label

/-- What is shown once the value has settled. -/
def settled (f : Fragment) : Except Chain String → Rendering
  | .ok value => .note (.rendering f.label) (f.shown value)
  | .error error => failureRendering f.label f.onError error

/-- The content of a fragment that missed its timeout.  Its value goes on from where it is. -/
def late (f : Fragment) (pace : Pace) (slot : Nat) : Rendering :=
  .wait pace <| f.value.conclude fun result =>
    match result with
    | .ok _ => f.settled result
    | .error error => .note (.notice (.fragmentFailed slot error)) (f.settled result)

/-- What is reported about a value that settled in time. -/
def inTimeNotice : Except Chain String → Notice
  | .ok _ => .settledInTime
  | .error _ => .failedInTime

/-- The fragment at its place, where fragments may be deferred after the given time, or not at all.
    A fragment that is deferred gets its slot before its fallback is rendered. -/
def rendering (f : Fragment) (fallback : Rendering) : Option Nat → Rendering
  | none => .wait f.value.pace (f.value.conclude f.settled)
  | some timeout =>
    .race (.start f.value.pace timeout)
      (f.value.conclude fun result => .note (.notice (inTimeNotice result)) (f.settled result))
      fun pace => .register (f.late pace) fun slot =>
        .note (.fallback f.label slot) <| fallback.andThen fun markup =>
          .done (Markup.placeholder (Markup.slotName slot) markup)

end Fragment

end ProgressiveHtml
