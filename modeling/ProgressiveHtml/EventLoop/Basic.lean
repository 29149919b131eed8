import ProgressiveHtml.Registry

namespace ProgressiveHtml

/-!
# Event loop — one reader and many late fragments

Everything that happens while documents are rendered happens on one event loop: the reader of a
document (the *main task*) and one task for each late fragment.  A task runs until it can only
wait; time passes only when all of them wait.

* `EventLoop` — the clock, the journal, the contents that are used up, and the registry;
* `EventLoop.register`, `EventLoop.drain`, `EventLoop.close` — the operations of the registry, with
  what is reported about them;
* `EventLoop.onBehalfOf` — doing something for a document.
-/

/-- The state of everything. -/
structure EventLoop where
  /-- The clock and the journal. -/
  timeline : Timeline := {}
  /-- How many contents have been numbered. -/
  cells : Nat := 0
  /-- The numbers of the contents that are used up. -/
  used : List Nat := []
  /-- The late fragments. -/
  registry : Registry := {}
  /-- What those have been answered who asked the registry for an item, in order.  Nothing that runs
      goes by it; it tells how often the registry was asked. -/
  answers : List Answer := []

namespace EventLoop

/-- The present instant. -/
def now (w : EventLoop) : Nat := w.timeline.now

/-- Write an event to the journal. -/
def note (w : EventLoop) (event : Event) : EventLoop :=
  { w with timeline := w.timeline.note event }

/-- Hand a late fragment to the registry; its slot. -/
def register (w : EventLoop) (content : Nat → Rendering) : Nat × EventLoop :=
  (w.registry.next,
    { w.note (.notice w.registry.registrationNotice) with
      registry := w.registry.register content })

/-- Do something on behalf of a document: what is written to the journal meanwhile bears its
    name. -/
def onBehalfOf {α : Type} (document : String) (act : EventLoop → α × EventLoop) (w : EventLoop) :
    α × EventLoop :=
  match act { w with timeline := { w.timeline with document := some document } } with
  | (a, after) =>
    (a, { after with timeline := { after.timeline with document := w.timeline.document } })

/-- What is reported when an item is handed out. -/
def handOut (item : Item) (w : EventLoop) : EventLoop :=
  match item.toOption.bind Chunk.slot? with
  | some slot => w.note (.notice (.ready slot w.registry.pending))
  | none => w

/-- Ask the registry for the next patch. -/
def drain (w : EventLoop) : Answer × EventLoop :=
  match w.registry.drain with
  | (.item item, registry) =>
    (.item item, handOut item { w with registry, answers := w.answers ++ [.item item] })
  | (answer, registry) => (answer, { w with registry, answers := w.answers ++ [answer] })

/-- Nobody reads patches any more. -/
def close (w : EventLoop) : EventLoop :=
  { w with registry := w.registry.close }

@[simp] theorem note_now (w : EventLoop) (event : Event) : (w.note event).now = w.now := rfl

@[simp] theorem note_registry (w : EventLoop) (event : Event) :
    (w.note event).registry = w.registry := rfl

@[simp] theorem register_fst (w : EventLoop) (content : Nat → Rendering) :
    (w.register content).1 = w.registry.next := rfl

@[simp] theorem register_registry (w : EventLoop) (content : Nat → Rendering) :
    (w.register content).2.registry = w.registry.register content := rfl

@[simp] theorem register_now (w : EventLoop) (content : Nat → Rendering) :
    (w.register content).2.now = w.now := rfl

end EventLoop

end ProgressiveHtml
