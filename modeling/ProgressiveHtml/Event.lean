import ProgressiveHtml.Error
import ProgressiveHtml.Markup.Patch

namespace ProgressiveHtml

/-!
# Events — what happens while documents are rendered

The journal of a run tells which eventual value began or settled, which callback was called, which
sequence was asked for an element, and what the library reports about its own work (`Notice`).

* `Notice` — a report, with its `level`, `message` and `fields`;
* `Event` — anything that is written to the journal;
* `Entry` — an event with its time and the document on whose behalf it happened.
-/

/-- A report of the library about its own work.  Slots are given by number. -/
inductive Notice where
  /-- A late fragment got a slot; `pending` fragments are now outstanding. -/
  | registered (slot pending : Nat)
  /-- A late fragment was dropped because nobody reads patches any more. -/
  | discarded (slot : Nat)
  /-- The value of a late fragment failed. -/
  | fragmentFailed (slot : Nat) (error : Chain)
  /-- A patch is handed out; `pending` fragments are still outstanding. -/
  | ready (slot : String) (pending : Nat)
  /-- A value came before its timeout. -/
  | settledInTime
  /-- A value failed before its timeout. -/
  | failedInTime
  /-- The callback for a failure panicked. -/
  | failureRenderPanicked (error : Chain)
  /-- A slot of a template has no source. -/
  | noSource (slot : String)
  /-- A template stream ended with an error while it stood at `position`. -/
  | streamFailed (error : RenderError) (position : Nat)
  /-- A document is being set up. -/
  | renderingDocument (timeout : Nat)
  /-- A document has been read to its end. -/
  | documentComplete (chunks : Nat)
  deriving DecidableEq

/-- How serious a notice is. -/
inductive Level where
  | trace
  | debug
  | warn
  deriving DecidableEq

namespace Level

/-- The name of the level. -/
def name : Level → String
  | trace => "TRACE"
  | debug => "DEBUG"
  | warn => "WARN"

end Level

namespace Notice

/-- How serious the notice is. -/
def level : Notice → Level
  | registered .. | discarded _ | ready .. | noSource _ | renderingDocument _
  | documentComplete _ => .debug
  | settledInTime | failedInTime => .trace
  | fragmentFailed .. | failureRenderPanicked _ | streamFailed .. => .warn

/-- The wording of the notice. -/
def message : Notice → String
  | registered .. => "registered deferred fragment"
  | discarded _ => "registry drain dropped, fragment discarded"
  | fragmentFailed .. => "deferred fragment failed"
  | ready .. => "deferred fragment ready"
  | settledInTime => "deferred fragment settled in time"
  | failedInTime => "deferred fragment failed in time"
  | failureRenderPanicked _ => "failure render panicked"
  | noSource _ => "no content source for template slot"
  | streamFailed .. => "template stream failed"
  | renderingDocument _ => "rendering document"
  | documentComplete _ => "document complete"

/-- The details of the notice, as names and texts. -/
def fields : Notice → List (String × String)
  | registered slot pending => [("slot", Markup.slotName slot), ("pending", pending.repr)]
  | discarded slot => [("slot", Markup.slotName slot)]
  | fragmentFailed slot error => [("slot", Markup.slotName slot), ("error", error.full)]
  | ready slot pending => [("slot", slot), ("pending", pending.repr)]
  | settledInTime | failedInTime => []
  | failureRenderPanicked error => [("error", error.full)]
  | noSource slot => [("slot", slot)]
  | streamFailed error position => [("error", error.message), ("position", position.repr)]
  | renderingDocument timeout => [("timeout_ms", timeout.repr)]
  | documentComplete chunks => [("chunks", chunks.repr)]

end Notice

/-- What tells the values and fragments of a run apart: the name given by the author, which may be
    given several times, and inside a tree the number of the content. -/
structure Label where
  name : String
  cell : Option Nat := none
  deriving DecidableEq

/-- Something that is written to the journal of a run. -/
inductive Event where
  /-- An eventual value was asked for the first time. -/
  | started (label : Label)
  /-- An eventual value settled, or was about to panic. -/
  | settled (label : Label)
  /-- The callback that renders a fragment's value was called. -/
  | rendering (label : Label)
  /-- The callback that renders a fragment's fallback was called, for the placeholder of a slot. -/
  | fallback (label : Label) (slot : Nat)
  /-- The callback that renders a fragment's failure was called. -/
  | failure (label : Label)
  /-- A sequence was asked for one more element. -/
  | pulled (name : String)
  /-- The library reports about its own work. -/
  | notice (notice : Notice)
  deriving DecidableEq

/-- An event with its time in milliseconds and the name of the document whose stream was being
    read, if one was. -/
structure Entry where
  time : Nat
  event : Event
  document : Option String
  deriving DecidableEq

end ProgressiveHtml
