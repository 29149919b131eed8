import ProgressiveHtml.Timeline

namespace ProgressiveHtml

/-!
# Eventual values

An eventual value takes its time and then settles: with a result, or with a panic.  Its `Pace` is
the part that takes time, a list of sleeps after which it settles or never does.  A `Race` runs a
pace against a timer and hands the pace back untouched when the timer wins.

* `Pace.poll`, `Race.poll` — going on with what is waiting;
* `Pace.alarm?`, `Race.alarms` — the sleeps that are running;
* `Eventual` — a pace together with what comes of it.
-/

/-- The part of an eventual value that takes time. -/
structure Pace where
  /-- The label under which it appears in the journal. -/
  label : Label
  /-- Whether it has been asked for before. -/
  begun : Bool := false
  /-- The sleeps that are still to pass, one after the other. -/
  sleeps : List Sleep := []
  /-- Whether it stays unsettled even after its sleeps. -/
  never : Bool := false
  deriving DecidableEq

namespace Pace

/-- The pace that settles after the given delays in milliseconds, or never. -/
def ofDelays (name : String) (delays : List Nat) (never : Bool) : Pace :=
  { label := { name }, never, sleeps := delays.map .idle }

/-- Write down that the value was asked for, the first time it is. -/
def begin (p : Pace) (t : Timeline) : Timeline :=
  if p.begun then t else t.note (.started p.label)

/-- Go on with a pace: `none` once it has settled. -/
def poll (p : Pace) (t : Timeline) : Option Pace × Timeline :=
  match Sleep.pollAll p.sleeps (p.begin t) with
  | ([], t) =>
    if p.never then (some { p with begun := true, sleeps := [] }, t)
    else (none, t.note (.settled p.label))
  | (sleeps, t) => (some { p with begun := true, sleeps }, t)

/-- The alarm of the sleep that is running. -/
def alarm? (p : Pace) : Option Alarm :=
  p.sleeps.head?.bind Sleep.alarm?

@[simp] theorem begin_now (p : Pace) (t : Timeline) : (p.begin t).now = t.now := by
  unfold begin
  split <;> rfl

/-- What a pace answers, by what is left of its sleeps. -/
theorem poll_def (p : Pace) (t : Timeline) :
    p.poll t =
      match (Sleep.pollAll p.sleeps (p.begin t)).1 with
      | [] =>
        if p.never then
          (some { p with begun := true, sleeps := [] }, (Sleep.pollAll p.sleeps (p.begin t)).2)
        else (none, (Sleep.pollAll p.sleeps (p.begin t)).2.note (.settled p.label))
      | sleeps =>
        (some { p with begun := true, sleeps }, (Sleep.pollAll p.sleeps (p.begin t)).2) := by
  rw [poll]
  rcases Sleep.pollAll p.sleeps (p.begin t) with ⟨_ | ⟨_, _⟩, later⟩ <;> rfl

/-- Time does not pass while a pace is asked. -/
@[simp] theorem poll_now (p : Pace) (t : Timeline) : (p.poll t).2.now = t.now := by
  have same := (Sleep.pollAll_now p.sleeps (p.begin t)).trans (p.begin_now t)
  rw [poll_def]
  cases (Sleep.pollAll p.sleeps (p.begin t)).1 with
  | nil => cases p.never <;> exact same
  | cons => exact same

end Pace

/-- A pace and the timer it runs against. -/
structure Race where
  pace : Pace
  timer : Sleep
  deriving DecidableEq

/-- How a race stands. -/
inductive Race.Standing where
  /-- The value settled first. -/
  | settled
  /-- The timer was first; the value goes on from where it is. -/
  | timedOut (pace : Pace)
  /-- Neither is there yet. -/
  | running (race : Race)
  deriving DecidableEq

namespace Race

/-- The race of a pace against a timer of the given length. -/
def start (pace : Pace) (timeout : Nat) : Race := ⟨pace, .idle timeout⟩

/-- Go on with a race.  The value is asked first, so it wins a tie. -/
def poll (r : Race) (t : Timeline) : Standing × Timeline :=
  match r.pace.poll t with
  | (none, t) => (.settled, t)
  | (some pace, t) =>
    match r.timer.poll t with
    | (none, t) => (.timedOut pace, t)
    | (some timer, t) => (.running ⟨pace, timer⟩, t)

/-- The alarms of the sleeps that are running. -/
def alarms (r : Race) : List Alarm :=
  r.pace.alarm?.toList ++ r.timer.alarm?.toList

/-- How a race stands, by what is left of its two sides. -/
theorem poll_def (r : Race) (t : Timeline) :
    r.poll t =
      match (r.pace.poll t).1 with
      | none => (.settled, (r.pace.poll t).2)
      | some pace =>
        match (r.timer.poll (r.pace.poll t).2).1 with
        | none => (.timedOut pace, (r.timer.poll (r.pace.poll t).2).2)
        | some timer => (.running ⟨pace, timer⟩, (r.timer.poll (r.pace.poll t).2).2) := by
  rw [poll]
  rcases r.pace.poll t with ⟨_ | pace, later⟩
  · rfl
  · dsimp only
    rcases r.timer.poll later with ⟨_ | timer, last⟩ <;> rfl

/-- Time does not pass while a race is asked. -/
@[simp] theorem poll_now (r : Race) (t : Timeline) : (r.poll t).2.now = t.now := by
  have same := r.pace.poll_now t
  have later := (r.timer.poll_now (r.pace.poll t).2).trans same
  rw [poll_def]
  cases (r.pace.poll t).1 with
  | none => exact same
  | some pace => cases (r.timer.poll (r.pace.poll t).2).1 <;> exact later

end Race

/-- A value that settles after some time. -/
structure Eventual (α : Type) where
  pace : Pace
  /-- The panic it ends with instead of a result. -/
  panic? : Option String := none
  /-- Its result. -/
  result : α

/-- The value as the content with a number. -/
def Eventual.numbered {α : Type} (value : Eventual α) (cell : Nat) : Eventual α :=
  { value with pace := { value.pace with label := { value.pace.label with cell := some cell } } }

end ProgressiveHtml
