import ProgressiveHtml.Proofs.Rendering.Deadlines
import ProgressiveHtml.Proofs.Rendering.Step

namespace ProgressiveHtml

/-!
# Renderings — what is done with a content

With one content four things can be done: its value is asked for and settles, its result is shown, and
its fallback is called.  Events that show a result or call a fallback have a ground: the value has
settled, or a slot was requested.

* `Deed`, `Timeline.deeds` — what can be done with a content, and what has been done;
* `Pace.events_poll`, `Race.events_poll` — what asking a value writes down;
* `Registration.Of`, `Requested` — the fragment of a content, and the slots requested for it;
* `Event.Founded` — an event that has its ground.
-/

/-! ### Deeds -/

/-- What can be done with a content.  The callbacks for its value and for its failure do the same. -/
inductive Deed where
  /-- Its value is asked for the first time. -/
  | started
  /-- Its value settles. -/
  | settled
  /-- Its value or its failure is shown. -/
  | shown
  /-- Its fallback is called. -/
  | placed
  deriving DecidableEq

/-- Everything that can be done with a content. -/
def Deed.all : Multiset Deed := {.started, .settled, .shown, .placed}

/-- What is done with a content at a moment. -/
def Moment.deed : Moment → Deed
  | started => .started
  | settled => .settled
  | rendering | failure => .shown
  | fallback => .placed

theorem Moment.IsShown.deed_eq {moment : Moment} (isShown : moment.IsShown) :
    moment.deed = .shown := by
  obtain rfl | rfl := isShown <;> rfl

/-- What is done with the content with a number when an event is written down. -/
def Event.deed? (cell : Nat) (event : Event) : Option Deed := (event.about cell).map Moment.deed

/-- What is done with a content in the course of events. -/
def Event.deeds (cell : Nat) (events : List Event) : List Deed := events.filterMap (·.deed? cell)

theorem Event.deed?_own {cell : Nat} {event : Event} {label : Label} {moment : Moment}
    (labelled : event.labelled = some (label, moment)) (own : label.cell = some cell) :
    event.deed? cell = some moment.deed := by
  rw [Event.deed?, Event.about_own labelled own, Option.map_some]

theorem Event.deed?_other {cell : Nat} {event : Event} {label : Label} {moment : Moment}
    (labelled : event.labelled = some (label, moment)) (other : label.cell ≠ some cell) :
    event.deed? cell = none := by
  rw [Event.deed?, Event.about_other labelled other, Option.map_none]

namespace Timeline

/-- The events in the journal, in order. -/
def events (t : Timeline) : List Event := t.journal.toList.map (·.event)

/-- What has been done with a content, in order. -/
def deeds (cell : Nat) (t : Timeline) : List Deed := Event.deeds cell t.events

@[simp] theorem events_note (t : Timeline) (event : Event) :
    (t.note event).events = t.events ++ [event] := by
  simp [events, note]

theorem deeds_of_events {cell : Nat} {t t' : Timeline} {new : List Event}
    (events : t'.events = t.events ++ new) :
    t'.deeds cell = t.deeds cell ++ Event.deeds cell new := by
  rw [deeds, deeds, events, Event.deeds, List.filterMap_append]
  rfl

end Timeline

/-! ### Asking a value -/

/-- What is written down when a value is asked, which has settled or has not. -/
def Pace.writes (p : Pace) (isThere : Bool) : List Event :=
  (if p.begun then [] else [.started p.label]) ++ if isThere then [.settled p.label] else []

/-- What asking a value writes down. -/
theorem Pace.events_poll (p : Pace) (t : Timeline) :
    (p.poll t).2.events = t.events ++ p.writes (p.poll t).1.isNone := by
  have first : (p.begin t).events = t.events ++ if p.begun then [] else [.started p.label] := by
    unfold begin
    split <;> simp
  obtain ⟨count, same⟩ := p.poll_eq t
  have counted : ({ p.begin t with sleeps := count } : Timeline).events = (p.begin t).events := rfl
  rw [same]
  dsimp only
  split
  · rw [Timeline.events_note, counted, first, List.append_assoc]
    rfl
  · rw [counted, first]
    simp [writes]

/-- A value that was asked has begun. -/
theorem Pace.begun_of_poll {p left : Pace} {t timeline : Timeline}
    (asked : p.poll t = (some left, timeline)) : left.begun = true := by
  obtain ⟨count, same⟩ := p.poll_eq t
  rw [asked] at same
  dsimp only at same
  split at same
  · cases same
  · simp only [Prod.mk.injEq, Option.some.injEq] at same
    rw [same.1]

/-- What asking a race writes down. -/
theorem Race.events_poll (r : Race) (t : Timeline) :
    (r.poll t).2.events = t.events ++ r.pace.writes (r.pace.poll t).1.isNone := by
  rw [← r.pace.events_poll, Timeline.events, r.journal_poll]
  rfl

/-- What a value that settles writes down. -/
theorem Pace.events_of_settled {p : Pace} {t timeline : Timeline}
    (asked : p.poll t = (none, timeline)) : timeline.events = t.events ++ p.writes true := by
  have events := p.events_poll t
  rwa [asked] at events

/-- What a value that settles in time writes down. -/
theorem Race.events_of_settled {r : Race} {t timeline : Timeline}
    (asked : r.poll t = (.settled, timeline)) :
    timeline.events = t.events ++ r.pace.writes true := by
  have events := r.events_poll t
  have settled : (r.pace.poll t).1 = none := (r.settled_iff t).1 (by rw [asked])
  rwa [asked, settled] at events

/-- A race that goes on or was lost goes on with what is left of its value. -/
theorem Race.pace_of_poll {r : Race} {t timeline : Timeline} {pace : Pace}
    (asked : r.poll t = (.timedOut pace, timeline) ∨
      ∃ timer, r.poll t = (.running ⟨pace, timer⟩, timeline)) :
    ∃ before, r.pace.poll t = (some pace, before) := by
  unfold poll at asked
  split at asked
  · simp at asked
  · rename_i left before first
    refine ⟨before, first.trans ?_⟩
    split at asked <;> simp_all

/-- What is written down when a value is asked tells of its content. -/
theorem Pace.deeds_writes {cell : Nat} {p : Pace} (own : p.label.cell = some cell) (isThere : Bool) :
    (Event.deeds cell (p.writes isThere) : Multiset Deed) =
      (if p.begun then 0 else {.started}) + if isThere then {.settled} else 0 := by
  have started : (Event.started p.label).deed? cell = some Moment.started.deed :=
    Event.deed?_own rfl own
  have settled : (Event.settled p.label).deed? cell = some Moment.settled.deed :=
    Event.deed?_own rfl own
  unfold writes Event.deeds
  cases p.begun <;> cases isThere <;> simp [started, settled, Moment.deed]
  rfl

/-- A value that settles is written down as settled. -/
theorem Pace.settled_mem_writes {cell : Nat} {p : Pace} (own : p.label.cell = some cell) :
    .settled ∈ Event.deeds cell (p.writes true) := by
  rw [← Multiset.mem_coe, Pace.deeds_writes own]
  simp

/-- It tells nothing of another content. -/
theorem Pace.deeds_writes_other {cell : Nat} {p : Pace} (other : p.label.cell ≠ some cell)
    (isThere : Bool) : Event.deeds cell (p.writes isThere) = [] := by
  have started : (Event.started p.label).deed? cell = none := Event.deed?_other rfl other
  have settled : (Event.settled p.label).deed? cell = none := Event.deed?_other rfl other
  unfold writes Event.deeds
  cases p.begun <;> cases isThere <;> simp [started, settled]

/-! ### What was requested -/

/-- Whether a fragment that was handed in is that of a content: it waits for its value. -/
def Registration.Of (given : Registration) (cell : Nat) : Prop :=
  ∃ pace told, given.content given.slot = .wait pace told ∧ pace.label.cell = some cell

/-- Whether a slot was requested for a content. -/
def Requested (cell : Nat) (handed : List Registration) (slot : Nat) : Prop :=
  ∃ given ∈ handed, given.slot = slot ∧ given.Of cell

theorem Requested.later {cell slot : Nat} {handed handed' : List Registration}
    (requested : Requested cell handed slot) (more : handed ⊆ handed') :
    Requested cell handed' slot := by
  obtain ⟨given, member, same, own⟩ := requested
  exact ⟨given, more member, same, own⟩

/-- An event that may come after what has been done with a content: its result is shown only when its
    value has settled, and its fallback is called only for a slot that was requested for it. -/
structure Event.Founded (cell : Nat) (handed : List Registration) (past : List Deed)
    (event : Event) : Prop where
  settled : event.deed? cell = some .shown → .settled ∈ past
  requested : ∀ label slot, event = .fallback label slot → label.cell = some cell →
    Requested cell handed slot

/-- An event that does not show a content and calls no fallback needs no ground. -/
theorem Event.Founded.of_plain {cell : Nat} {handed : List Registration} {past : List Deed}
    {event : Event} (other : event.deed? cell ≠ some .shown) (plain : event.placed? = none) :
    event.Founded cell handed past where
  settled isShown := absurd isShown other
  requested label slot same := by
    subst same
    cases plain

/-- What is written down when a value is asked needs no ground. -/
theorem Pace.founded_writes {cell : Nat} {handed : List Registration} {past : List Deed} (p : Pace)
    (isThere : Bool) : ∀ event ∈ p.writes isThere, event.Founded cell handed past := by
  have plain (event : Event) (moment : Moment) (labelled : event.labelled = some (p.label, moment))
      (other : moment.deed ≠ .shown) (plain : event.placed? = none) :
      event.Founded cell handed past := by
    refine .of_plain (fun isShown => ?_) plain
    by_cases own : p.label.cell = some cell
    · rw [Event.deed?_own labelled own] at isShown
      exact other (Option.some.inj isShown)
    · rw [Event.deed?_other labelled own] at isShown
      cases isShown
  intro event member
  unfold writes at member
  obtain first | last := List.mem_append.1 member
  · split at first
    · cases first
    · rw [List.mem_singleton.1 first]
      exact plain _ .started rfl (by simp [Moment.deed]) rfl
  · split at last
    · rw [List.mem_singleton.1 last]
      exact plain _ .settled rfl (by simp [Moment.deed]) rfl
    · cases last

end ProgressiveHtml
