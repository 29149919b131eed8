import ProgressiveHtml.Template
import ProgressiveHtml.Template.Source

namespace ProgressiveHtml

/-!
# Template streams — the chunks of a filled template

A template stream walks a template from left to right and yields the literal text and the content of
the slots in this order.  While it waits at one slot, the renderings of all later slots go on too;
sequences are asked only at their own place.  A slot without a source yields nothing, and so does
empty text.  The first error in the order of the template ends the stream.

* `TemplateStream.start` — assign sources to slots;
* `TemplateStream.poll` — ask for the next chunk;
* `TemplateStream.release` — the stream is given up.
-/

/-- A part of a template that is still to be written. -/
inductive Piece where
  | segment (text : String)
  | slot (source : Option Source)

namespace Piece

/-- The sleeps that a piece is waiting for. -/
def alarms : Piece → List Alarm
  | slot (some (.rendering r)) => r.alarms
  | slot (some (.sequence s)) => s.alarms
  | _ => []

/-- A piece is given up. -/
def release : Piece → EventLoop → EventLoop
  | slot (some source), w => source.release w
  | _, w => w

/-- How many items a piece can still yield, when at most so many patches are to come. -/
def bound (patchCount : Nat) : Piece → Nat
  | slot (some (.sequence s)) => s.bound patchCount
  | _ => 1

end Piece

/-- A template being written out. -/
structure TemplateStream where
  /-- How many slots have been passed. -/
  position : Nat := 0
  /-- What is still to be written. -/
  pieces : List Piece := []
  /-- Whether the stream has ended. -/
  finished : Bool := false

/-- What asking a stream for the next item comes to; `none` at the end. -/
abbrev StreamPoll (σ : Type) := Polled σ (Option Item)

namespace TemplateStream

/-- Assign sources to sections from left to right: the pieces, and the sources not used. -/
def assign : List (String × String) → Sources → EventLoop → List Piece × Sources × EventLoop
  | [], sources, w => ([], sources, w)
  | (name, text) :: rest, sources, w =>
    match sources.take name with
    | (none, sources) =>
      match assign rest sources (w.note (.notice (.noSource name))) with
      | (pieces, left, w) => (.slot none :: .segment text :: pieces, left, w)
    | (some source, sources) =>
      match assign rest sources w with
      | (pieces, left, w) => (.slot (some source) :: .segment text :: pieces, left, w)

/-- Begin to write out a template.  Sources that no slot uses are given up. -/
def start (template : Template) (sources : Sources) (w : EventLoop) : TemplateStream × EventLoop :=
  match assign template.sections sources w with
  | (pieces, left, w) =>
    ({ pieces := .segment template.opening :: pieces },
      left.entries.foldl (fun w source => source.2.release w) w)

/-- Let the renderings of all remaining slots go on, in order, up to the first that panics. -/
def drive : List Piece → EventLoop → Except String (List Piece) × EventLoop
  | [], w => (.ok [], w)
  | .slot (some (.rendering r)) :: rest, w =>
    match r.poll w with
    | (.panicked message, w) => (.error message, w)
    | (r, w) =>
      match drive rest w with
      | (pieces, w) => (pieces.map (.slot (some (.rendering r)) :: ·), w)
  | piece :: rest, w =>
    match drive rest w with
    | (pieces, w) => (pieces.map (piece :: ·), w)

/-- The stream ends with an error. -/
def fail (error : RenderError) (position : Nat) (pieces : List Piece) (w : EventLoop) :
    StreamPoll TemplateStream × EventLoop :=
  (.ready (some (.error error)) { position, pieces, finished := true },
    w.note (.notice (.streamFailed error position)))

/-- The next chunk among the remaining pieces, after `position` slots have been passed. -/
def walk : List Piece → (position : Nat) → EventLoop → StreamPoll TemplateStream × EventLoop
  | [], position, w => (.ready none { position, pieces := [], finished := true }, w)
  | .segment text :: rest, position, w =>
    if text.isEmpty then walk rest position w
    else (.ready (some (.ok (.literal text))) { position, pieces := rest }, w)
  | .slot none :: rest, position, w => walk rest (position + 1) w
  | .slot (some (.text text)) :: rest, position, w =>
    if text.isEmpty then walk rest (position + 1) w
    else (.ready (some (.ok (.content text))) { position := position + 1, pieces := rest }, w)
  | .slot (some (.rendering (.done markup))) :: rest, position, w =>
    if markup.isEmpty then walk rest (position + 1) w
    else (.ready (some (.ok (.content markup))) { position := position + 1, pieces := rest }, w)
  | .slot (some (.rendering (.failed error))) :: rest, position, w =>
    fail error (position + 1) (.slot none :: rest) w
  | .slot (some (.rendering r)) :: rest, position, w =>
    (.pending { position, pieces := .slot (some (.rendering r)) :: rest }, w)
  | .slot (some (.sequence s)) :: rest, position, w =>
    match s.poll w with
    | (.item (.ok chunk), s, w) =>
      (.ready (some (.ok chunk)) { position, pieces := .slot (some (.sequence s)) :: rest }, w)
    | (.item (.error error), s, w) =>
      fail error position (.slot (some (.sequence s)) :: rest) w
    | (.finished, s, w) => walk rest (position + 1) (s.release w)
    | (.waiting, s, w) =>
      (.pending { position, pieces := .slot (some (.sequence s)) :: rest }, w)

/-- Ask for the next chunk. -/
def poll (s : TemplateStream) (w : EventLoop) : StreamPoll TemplateStream × EventLoop :=
  if s.finished then (.ready none s, w)
  else
    match drive s.pieces w with
    | (.error message, w) => (.panicked message, w)
    | (.ok pieces, w) => walk pieces s.position w

/-- The sleeps that the stream is waiting for. -/
def alarms (s : TemplateStream) : List Alarm :=
  s.pieces.flatMap Piece.alarms

/-- The stream is given up. -/
def release (s : TemplateStream) (w : EventLoop) : EventLoop :=
  s.pieces.foldl (fun w piece => piece.release w) w

/-- How many items the stream can still yield, when at most so many patches are to come. -/
def bound (patchCount : Nat) (s : TemplateStream) : Nat :=
  s.pieces.foldl (fun total piece => total + piece.bound patchCount) 0

end TemplateStream

end ProgressiveHtml
