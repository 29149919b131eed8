namespace ProgressiveHtml

/-!
# Errors

Three kinds of failure are kept apart.  A `Chain` is what an eventual value fails with: a message
and the causes behind it.  A `RenderError` ends the rendering of a node.  A `StreamError` ends a
response, because rendering failed, because writing failed, or because it had ended before.

* `Chain.message`, `Chain.full` — the outermost message, and all of them;
* `RenderError.message`, `StreamError.message` — the wording of each cause;
* `RenderError.kind`, `StreamError.kind` — the name of each cause.
-/

/-- Why an eventual value failed: the outermost message and the causes below it. -/
structure Chain where
  /-- The outermost message. -/
  message : String
  /-- The causes, from the nearest to the root. -/
  causes : List String := []
  deriving DecidableEq

namespace Chain

/-- The chain with the given messages from the outermost to the root. -/
def ofList : List String → Chain
  | [] => ⟨"", []⟩
  | message :: causes => ⟨message, causes⟩

/-- All messages from the outermost to the root. -/
def full (chain : Chain) : String :=
  String.intercalate ": " (chain.message :: chain.causes)

end Chain

/-- Why the rendering of a node ended without markup. -/
inductive RenderError where
  /-- A collaborator failed. -/
  | failed (message : String)
  /-- Content that exists only once was asked for again. -/
  | consumed
  /-- Any other failure, with its causes. -/
  | other (chain : Chain)
  deriving DecidableEq

namespace RenderError

/-- The name of the kind of error. -/
def kind : RenderError → String
  | failed _ => "Failed"
  | consumed => "FragmentConsumed"
  | other _ => "Other"

/-- The wording of the error. -/
def message : RenderError → String
  | failed text => "Render failed: " ++ text
  | consumed => "Deferred content was already rendered"
  | other chain => chain.message

end RenderError

/-- Why a response ended early. -/
inductive StreamError where
  /-- Rendering failed. -/
  | render (error : RenderError)
  /-- Writing failed. -/
  | sink (message : String)
  /-- The response had ended before. -/
  | completed
  deriving DecidableEq

namespace StreamError

/-- The name of the kind of error. -/
def kind : StreamError → String
  | render error => "Render/" ++ error.kind
  | sink _ => "Sink"
  | completed => "Completed"

/-- The wording of the error. -/
def message : StreamError → String
  | render error => "Render error: " ++ error.message
  | sink text => "Sink error: " ++ text
  | completed => "Stream already completed"

end StreamError

end ProgressiveHtml
