import ProgressiveHtml.Config
import ProgressiveHtml.Node
import ProgressiveHtml.Template.Stream

namespace ProgressiveHtml

/-!
# Documents

A document is a template with five slots: the head, an invisible pad, the body, the patches of the
late fragments, and optional trailing content.  Fragments may be deferred in the body only.

* `Document.template`, `Document.pad` — the built-in pattern and padding;
* `Settings` — what one document is rendered with;
* `Document.start`, `Document.poll` — the stream of its chunks.
-/

/-- What one document is rendered with. -/
structure Settings where
  /-- The content of the head, in place of the default head. -/
  head : Option Node := none
  /-- Content behind the patches, in front of the closing tags. -/
  endOfBody : Option Node := none
  /-- How many milliseconds a fragment may take before it is deferred. -/
  timeout : Nat := ({} : Config).timeout.toMillis
  /-- The document pattern, in place of the built-in one. -/
  template : Option String := none
  /-- The name of the request, for the journal. -/
  requestId : String

/-- The settings that a configuration gives. -/
def Settings.ofConfig (config : Config) (requestId : String) : Settings :=
  { timeout := config.timeout.toMillis, template := config.template, requestId }

/-- A tree as a source. -/
def Source.ofNode (node : Node) (env : Environment) : Source :=
  .rendering ((Built.node node).rendering env)

/-- A document being written out. -/
structure Document where
  stream : TemplateStream
  /-- The name of the request. -/
  requestId : String
  /-- How many chunks have been yielded. -/
  chunks : Nat := 0

namespace Document

/-! ### The slots and the built-in shell -/

/-- The slot of the head. -/
def headSlot : String := "head"

/-- The slot of the pad. -/
def padSlot : String := "safariPad"

/-- The slot of the body. -/
def bodySlot : String := "body"

/-- The slot of the patches. -/
def patchesSlot : String := "deferredSlots"

/-- The slot of the trailing content. -/
def endOfBodySlot : String := "endOfBody"

/-- The built-in pattern. -/
def shell : String :=
  "<!DOCTYPE html><html lang=\"en\"><head>" ++ Template.marker headSlot ++ "</head><body>"
    ++ Template.marker padSlot ++ Template.marker bodySlot ++ Template.marker patchesSlot
    ++ Template.marker endOfBodySlot ++ "</body></html>"

/-- The built-in template. -/
def template : Template := .compile shell

/-- Invisible content in front of the body.  Some browsers show a response bit by bit only once
    enough characters have come. -/
def pad : String :=
  "<span aria-hidden=\"true\" style=\"user-select: none; position: absolute;\">"
    ++ "".pushn (Char.ofNat 0x200B) 512 ++ "</span>"

/-! ### The stream -/

/-- What the slots of a document are filled with. -/
def sources (settings : Settings) (body : Node) : Sources :=
  .ofList <|
    [(headSlot, .ofNode (settings.head.getD (.head "" [])) .empty),
      (padSlot, .text pad),
      (bodySlot, .ofNode body (Environment.empty.deferringAfter settings.timeout)),
      (patchesSlot, .sequence .patches)]
    ++ (settings.endOfBody.map fun node => (endOfBodySlot, Source.ofNode node .empty)).toList

/-- The name under which a document stands in the journal. -/
def journalName (requestId : String) : String :=
  "render_document/" ++ requestId

/-- Begin to write out a document. -/
def start (settings : Settings) (body : Node) (w : EventLoop) : Document × EventLoop :=
  let template := (settings.template.map Template.compile).getD template
  let announce (w : EventLoop) := ((), w.note (.notice (.renderingDocument settings.timeout)))
  let (_, w) := w.onBehalfOf (journalName settings.requestId) announce
  match TemplateStream.start template (sources settings body) w with
  | (stream, w) => ({ stream, requestId := settings.requestId }, w)

/-- Count a chunk, or report the end. -/
def record (d : Document) :
    StreamPoll TemplateStream × EventLoop → StreamPoll Document × EventLoop
  | (.ready (some (.ok chunk)) stream, w) =>
    (.ready (some (.ok chunk)) { d with stream, chunks := d.chunks + 1 }, w)
  | (.ready (some (.error error)) stream, w) =>
    (.ready (some (.error error)) { d with stream }, w)
  | (.ready none stream, w) =>
    (.ready none { d with stream }, w.note (.notice (.documentComplete d.chunks)))
  | (.pending stream, w) => (.pending { d with stream }, w)
  | (.panicked message, w) => (.panicked message, w)

/-- Ask for the next chunk.  What happens meanwhile is written down on behalf of the document. -/
def poll (d : Document) (w : EventLoop) : StreamPoll Document × EventLoop :=
  w.onBehalfOf (journalName d.requestId) fun w => d.record (d.stream.poll w)

/-- A bound on the late fragments of a document. -/
def lateFragments (settings : Settings) (body : Node) : Nat :=
  body.fragments (Environment.empty.deferringAfter settings.timeout)

end Document

end ProgressiveHtml
