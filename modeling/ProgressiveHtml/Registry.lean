import ProgressiveHtml.Rendering
import ProgressiveHtml.Markup.Patch

namespace ProgressiveHtml

/-!
# Registry — the late fragments of a document

A registry numbers the fragments that were late, keeps each as a task until its content is there,
and hands out one item per fragment in the order in which they complete.  `pending` counts the
fragments whose item has not been handed out.

* `Registry.register` — take a fragment in, or only number it once the registry is closed;
* `Registry.deliver` — a task is over, its item is ready;
* `Registry.drain` — ask for the next item;
* `Registry.close` — nobody reads items any more: drop all tasks.
-/

/-- A late fragment on its way: its slot and what is left to do of its content. -/
structure FragmentTask where
  slot : Nat
  work : Rendering

/-- The late fragments of a document. -/
structure Registry where
  /-- The number of the next slot; like all counts here it has no upper bound. -/
  next : Nat := 0
  /-- How many fragments were taken in and have not been handed out, without an upper bound. -/
  pending : Nat := 0
  /-- Whether nobody reads items any more. -/
  closed : Bool := false
  /-- The items that are ready, in the order of completion. -/
  ready : List Item := []
  /-- The fragments that are not complete. -/
  tasks : List FragmentTask := []
  /-- The slots of the tasks that can go on, in the order in which they were woken. -/
  queue : List Nat := []

namespace Registry

/-- Take in a late fragment, whose content depends on the slot it gets.  A closed registry gives out
    the number and drops the fragment. -/
def register (r : Registry) (content : Nat → Rendering) : Registry :=
  if r.closed then { r with next := r.next + 1 }
  else
    { r with
      next := r.next + 1
      pending := r.pending + 1
      tasks := r.tasks ++ [⟨r.next, content r.next⟩]
      queue := r.queue ++ [r.next] }

/-- What is reported about a registration. -/
def registrationNotice (r : Registry) : Notice :=
  if r.closed then .discarded r.next else .registered r.next (r.pending + 1)

/-- What is left to do of the fragment with a slot. -/
def task? (r : Registry) (slot : Nat) : Option Rendering :=
  (r.tasks.find? (·.slot == slot)).map (·.work)

/-- The fragment has got so far. -/
def keep (r : Registry) (slot : Nat) (work : Rendering) : Registry :=
  { r with tasks := r.tasks.map fun task => if task.slot = slot then ⟨slot, work⟩ else task }

/-- The fragment is complete, and this is its item. -/
def deliver (r : Registry) (slot : Nat) (item : Item) : Registry :=
  { r with
    tasks := r.tasks.filter (·.slot != slot)
    ready := r.ready ++ [item] }

/-- The item of a fragment whose content has come to an end: its patch, its error, or the report
    that it panicked. -/
def item? (slot : Nat) : Rendering → Option Item
  | .done markup =>
    some (.ok (.patch (Markup.slotName slot) (Markup.patch (Markup.slotName slot) markup)))
  | .failed error => some (.error error)
  | .panicked _ => some (.error (.failed ("rendering " ++ Markup.slotName slot ++ " panicked")))
  | _ => none

/-- Ask for the next item.  A fragment that takes in another one is itself outstanding, so when none
    is outstanding nothing more can come. -/
def drain (r : Registry) : Answer × Registry :=
  match r.ready with
  | item :: rest => (.item item, { r with ready := rest, pending := r.pending - 1 })
  | [] => if r.pending = 0 then (.finished, r) else (.waiting, r)

/-- Nobody reads items any more: drop the fragments that are not complete. -/
def close (r : Registry) : Registry :=
  { r with closed := true, tasks := [], queue := [], ready := [] }

/-- The slots of the tasks that wait for a sleep ending at or before `now`, in the order in which
    these sleeps were started. -/
def due (r : Registry) (now : Nat) : List Nat :=
  let first (task : FragmentTask) : Option (Nat × Nat) :=
    (((task.work.alarms.filter (·.deadline ≤ now)).map (·.number)).min?).map (·, task.slot)
  ((r.tasks.filterMap first).mergeSort fun a b => a.1 ≤ b.1).map (·.2)

/-- The sleeps that the tasks are waiting for. -/
def alarms (r : Registry) : List Alarm :=
  r.tasks.flatMap (·.work.alarms)

end Registry

end ProgressiveHtml
