import ProgressiveHtml.EventLoop.Wait
import ProgressiveHtml.Named

namespace ProgressiveHtml

/-!
# Sources — where the content of a slot comes from

A slot is filled from a text, from a rendering that is still going on, or from a sequence of items:
a supply with delays of its own, or the patches of the late fragments.

* `Supply.poll`, `Sequence.poll` — asking for the next item;
* `Sources` — sources by the names of their slots.
-/

/-- Items that come one by one, each after a delay. -/
structure Supply where
  /-- The name under which it appears in the journal. -/
  name : String
  /-- Whether an item has been asked for and has not come yet. -/
  asked : Bool := false
  /-- The items still to come, each with the sleep before it. -/
  items : List (Sleep × Item) := []
  /-- Whether it waits for ever after the last item, instead of ending. -/
  never : Bool := false

namespace Supply

/-- The supply of the given items, each with its delay in milliseconds. -/
def ofList (name : String) (items : List (Nat × Item)) (never : Bool) : Supply :=
  { name, never, items := items.map fun (delay, item) => (.idle delay, item) }

/-- Write down that an item is asked for, once for each item. -/
def ask (s : Supply) (t : Timeline) : Timeline :=
  if s.asked then t else t.note (.pulled s.name)

/-- Ask for the next item. -/
def poll (s : Supply) (t : Timeline) : Answer × Supply × Timeline :=
  match s.items with
  | [] => (if s.never then .waiting else .finished, { s with asked := true }, s.ask t)
  | (sleep, item) :: rest =>
    match sleep.poll (s.ask t) with
    | (none, t) => (.item item, { s with asked := false, items := rest }, t)
    | (some sleep, t) => (.waiting, { s with asked := true, items := (sleep, item) :: rest }, t)

/-- The sleep that is running. -/
def alarm? (s : Supply) : Option Alarm :=
  s.items.head?.bind fun (sleep, _) => sleep.alarm?

end Supply

/-- Any number of items, to be asked for one by one. -/
inductive Sequence where
  /-- A supply of items. -/
  | supply (supply : Supply)
  /-- The patches of the late fragments. -/
  | patches

namespace Sequence

/-- Ask for the next item. -/
def poll : Sequence → EventLoop → Answer × Sequence × EventLoop
  | supply s, w =>
    match s.poll w.timeline with
    | (answer, s, timeline) => (answer, supply s, { w with timeline })
  | patches, w =>
    match w.drain with
    | (answer, w) => (answer, patches, w)

/-- The sequence is given up: nobody reads its items any more. -/
def release : Sequence → EventLoop → EventLoop
  | supply _, w => w
  | patches, w => w.close

/-- The sleeps that the sequence itself is waiting for. -/
def alarms : Sequence → List Alarm
  | supply s => s.alarm?.toList
  | patches => []

/-- How many items a sequence can still yield, when at most so many patches are to come. -/
def bound (patchCount : Nat) : Sequence → Nat
  | supply s => s.items.length
  | patches => patchCount

end Sequence

/-- Where the content of a slot comes from. -/
inductive Source where
  | text (text : String)
  | rendering (rendering : Rendering)
  | sequence (sequence : Sequence)

/-- An eventual value as a source. -/
def Source.ofEventual (value : Eventual (Except RenderError String)) : Source :=
  .rendering <| .wait value.pace <| value.conclude fun result =>
    match result with
    | .ok written => .done written
    | .error reason => .failed reason

/-- A source is given up. -/
def Source.release : Source → EventLoop → EventLoop
  | .sequence s, w => s.release w
  | _, w => w

/-- Sources by the names of their slots. -/
abbrev Sources := Named Source

namespace Sources

/-- Take the source of a name for use at one slot.  A text can be used again; a rendering and a
    sequence cannot. -/
def take (sources : Sources) (name : String) : Option Source × Sources :=
  match sources.get? name with
  | some (.text text) => (some (.text text), sources)
  | some source => (some source, sources.erase name)
  | none => (none, sources)

end Sources

end ProgressiveHtml
