import Mathlib.Algebra.Order.Group.Multiset
import ProgressiveHtml.EventLoop.Basic

namespace ProgressiveHtml

/-!
# Renderings — the moments of one content

The journal tells when the value of a content was asked for and when it settled, and when its
callbacks were called.  It also tells which slots were given out, and for which slots fallbacks were
called.

* `Moment`, `Event.about` — what can happen to a content, and what an event tells of it;
* `Timeline.moments` — all that has happened to a content, with the times;
* `Timeline.registrations`, `Timeline.placements` — slots given out, and the fallbacks called for them.
-/

/-- What can happen to a content. -/
inductive Moment where
  /-- Its value is asked for the first time. -/
  | started
  /-- Its value settles. -/
  | settled
  /-- The callback for its value is called. -/
  | rendering
  /-- The callback for its fallback is called. -/
  | fallback
  /-- The callback for its failure is called. -/
  | failure
  deriving DecidableEq

/-- Whether the result of the value is shown: one of its two callbacks is called. -/
def Moment.IsShown (moment : Moment) : Prop := moment = .rendering ∨ moment = .failure

/-- What happens to a content at an instant, if anything. -/
def Moment.at (time : Nat) (moment? : Option Moment) : Multiset (Nat × Moment) :=
  (moment?.map (time, ·)).toList

@[simp] theorem Moment.at_none (time : Nat) : Moment.at time none = 0 := rfl

@[simp] theorem Moment.at_some (time : Nat) (moment : Moment) :
    Moment.at time (some moment) = {(time, moment)} := rfl

namespace Event

/-- What an event tells of the content with a label. -/
def labelled : Event → Option (Label × Moment)
  | started label => some (label, .started)
  | settled label => some (label, .settled)
  | rendering label => some (label, .rendering)
  | fallback label _ => some (label, .fallback)
  | failure label => some (label, .failure)
  | pulled _ | notice _ => none

/-- What an event tells of the content with a number. -/
def about (cell : Nat) (event : Event) : Option Moment :=
  (event.labelled.filter (·.1.cell = some cell)).map (·.2)

/-- The slot that was given out. -/
def registered? : Event → Option Nat
  | notice (.registered slot _) => some slot
  | _ => none

/-- The content whose fallback was called, and the slot of its placeholder. -/
def placed? : Event → Option (Label × Nat)
  | fallback label slot => some (label, slot)
  | _ => none

/-- An event that neither gives out a slot nor calls a fallback. -/
def Plain (event : Event) : Prop := event.registered? = none ∧ event.placed? = none

variable {cell : Nat} {event : Event} {label : Label} {moment : Moment}

/-- An event tells something of the content that its label names. -/
theorem about_own (labelled : event.labelled = some (label, moment))
    (own : label.cell = some cell) : event.about cell = some moment := by
  simp [about, labelled, own]

/-- An event tells nothing of a content that its label does not name. -/
theorem about_other (labelled : event.labelled = some (label, moment))
    (other : label.cell ≠ some cell) : event.about cell = none := by
  simp [about, labelled, other]

end Event

/-- The fallback of a content was called for the placeholder of a slot. -/
structure Placement where
  time : Nat
  label : Label
  slot : Nat

namespace Timeline

/-- What has happened to a content, with the times. -/
def moments (cell : Nat) (t : Timeline) : Multiset (Nat × Moment) :=
  t.journal.toList.filterMap fun entry => (entry.event.about cell).map (entry.time, ·)

/-- The slots that were given out, in order, with the times. -/
def registrations (t : Timeline) : List (Nat × Nat) :=
  t.journal.toList.filterMap fun entry => entry.event.registered?.map (entry.time, ·)

/-- The fallbacks that were called, in order. -/
def placements (t : Timeline) : List Placement :=
  t.journal.toList.filterMap fun entry =>
    entry.event.placed?.map fun (label, slot) => ⟨entry.time, label, slot⟩

variable (cell : Nat) (t : Timeline) (event : Event)

@[simp] theorem moments_note :
    (t.note event).moments cell = t.moments cell + Moment.at t.now (event.about cell) := by
  cases about : event.about cell <;>
    simp [moments, note, List.filterMap_append, about, ← Multiset.coe_add]

@[simp] theorem registrations_note :
    (t.note event).registrations =
      t.registrations ++ (event.registered?.map (t.now, ·)).toList := by
  cases given : event.registered? <;> simp [registrations, note, List.filterMap_append, given]

@[simp] theorem placements_note :
    (t.note event).placements =
      t.placements ++ (event.placed?.map fun (label, slot) => ⟨t.now, label, slot⟩).toList := by
  cases placed : event.placed? <;> simp [placements, note, List.filterMap_append, placed]

/-- The fallbacks of a content are those that were called for it. -/
theorem moments_fallback :
    ((t.moments cell).filter (·.2 = .fallback)).map (·.1) =
      ((t.placements.filter (·.label.cell = some cell)).map (·.time) : Multiset Nat) := by
  unfold moments placements
  rw [Multiset.filter_coe, Multiset.map_coe]
  refine congrArg _ ?_
  induction t.journal.toList with
  | nil => rfl
  | cons entry rest ih =>
    obtain ⟨time, event, document⟩ := entry
    rw [List.filterMap_cons, List.filterMap_cons]
    cases event with
    | fallback label slot =>
      have placed : (Event.fallback label slot).placed? = some (label, slot) := rfl
      by_cases own : label.cell = some cell
      · have about : (Event.fallback label slot).about cell = some .fallback :=
          Event.about_own rfl own
        simpa [about, placed, own] using ih
      · have about : (Event.fallback label slot).about cell = none := Event.about_other rfl own
        simpa [about, placed, own] using ih
    | pulled | notice => exact ih
    | started label | settled label | rendering label | failure label =>
      -- Whatever it tells, it tells of no fallback.
      by_cases own : label.cell = some cell
      · rw [Event.about_own rfl own]
        exact ih
      · rw [Event.about_other rfl own]
        exact ih

variable {cell t} in
/-- So are those of some time. -/
theorem moments_fallback_since {t' : Timeline} {happened : Multiset (Nat × Moment)}
    {given : List Placement} (moments : t'.moments cell = t.moments cell + happened)
    (placements : t'.placements = t.placements ++ given) :
    (happened.filter (·.2 = .fallback)).map (·.1) =
      ((given.filter (·.label.cell = some cell)).map (·.time) : Multiset Nat) := by
  have before := t.moments_fallback cell
  have after := t'.moments_fallback cell
  rw [moments, placements, Multiset.filter_add, Multiset.map_add, before, List.filter_append,
    List.map_append, ← Multiset.coe_add] at after
  exact add_left_cancel after

end Timeline

end ProgressiveHtml
