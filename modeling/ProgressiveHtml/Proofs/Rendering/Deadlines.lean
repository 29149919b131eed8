import Mathlib.Algebra.GroupWithZero.Nat
import ProgressiveHtml.Eventual
import ProgressiveHtml.Proofs.Rendering.Moments

namespace ProgressiveHtml

/-!
# Eventual values — when they settle

A value settles when its sleeps are over, provided that it is asked whenever one of them ends.  So at
any time it is known when it will settle, and asking it does not change this.

* `Sleep.overAll`, `Pace.due?` — when sleeps are over, and when a value settles;
* `Sleep.Timely`, `Pace.Awaits` — nothing has been overslept so far;
* `Pace.moments_poll` — what asking a value writes down;
* `Pace.poll_cases`, `Race.poll_cases` — a value settles when it is due, and a race is won by what is
  due first.
-/

namespace Sleep

/-- When a sleep is over that is asked for at an instant. -/
def endsAt (time : Nat) : Sleep → Nat
  | idle length => time + length
  | running alarm => alarm.deadline

/-- When sleeps are over, one after the other, of which the first is asked for at an instant. -/
def overAll (now : Nat) (sleeps : List Sleep) : Nat := sleeps.foldl endsAt now

theorem overAll_idle (now : Nat) (lengths : List Nat) :
    overAll now (lengths.map idle) = now + lengths.sum := by
  induction lengths generalizing now with
  | nil => rfl
  | cons length rest ih =>
    have onward : overAll now ((length :: rest).map idle) = overAll (now + length) (rest.map idle) :=
      rfl
    rw [onward, ih, List.sum_cons, Nat.add_assoc]

/-- Sleeps of which the first is running, not to end before an instant. -/
inductive Running (now : Nat) : List Sleep → Prop
  | intro {alarm : Alarm} (ahead : now ≤ alarm.deadline) (lengths : List Nat) :
      Running now (running alarm :: lengths.map idle)

theorem Running.ne_nil {now : Nat} {sleeps : List Sleep} (running : Running now sleeps) :
    sleeps ≠ [] := by
  cases running
  exact List.cons_ne_nil _ _

/-- When running sleeps are over does not depend on when they are asked for, and is not before the
    first one ends. -/
theorem Running.overAll_eq {now : Nat} {sleeps : List Sleep} (running : Running now sleeps)
    (other : Nat) : overAll other sleeps = overAll now sleeps ∧ now ≤ overAll now sleeps := by
  obtain ⟨ahead, lengths⟩ := running
  rename_i alarm
  have onward (time : Nat) : overAll time (.running alarm :: lengths.map idle) =
      alarm.deadline + lengths.sum := overAll_idle alarm.deadline lengths
  rw [onward, onward]
  exact ⟨rfl, by omega⟩

/-- Sleeps stay in time as long as time does not pass the end of the one that is running. -/
theorem Running.pass {now later : Nat} {sleeps : List Sleep} (running : Running now sleeps)
    (stops : ∀ alarm ∈ sleeps.head?.bind alarm?, now ≤ alarm.deadline → later ≤ alarm.deadline) :
    Running later sleeps := by
  obtain ⟨ahead, lengths⟩ := running
  exact .intro (stops _ rfl ahead) lengths

/-- Sleeps of which none has been overslept at an instant. -/
inductive Timely (now : Nat) : List Sleep → Prop
  | idle (lengths : List Nat) : Timely now (lengths.map .idle)
  | running {sleeps : List Sleep} (running : Running now sleeps) : Timely now sleeps

/-- What has not been overslept is not over before the present instant. -/
theorem Timely.le_overAll {now : Nat} {sleeps : List Sleep} (timely : Timely now sleeps) :
    now ≤ overAll now sleeps := by
  cases timely with
  | idle lengths =>
    rw [overAll_idle]
    exact Nat.le_add_right _ _
  | running running => exact (running.overAll_eq now).2

/-- Asking sleeps starts some of them and does nothing else. -/
theorem pollAll_timeline (sleeps : List Sleep) (t : Timeline) :
    ∃ count, (pollAll sleeps t).2 = { t with sleeps := count } := by
  induction sleeps generalizing t with
  | nil => exact ⟨t.sleeps, rfl⟩
  | cons s rest ih =>
    have alone : ∃ count, (s.poll t).2 = { t with sleeps := count } := by
      unfold poll
      split
      · exact ⟨_, rfl⟩
      · exact ⟨_, rfl⟩
      · split <;> exact ⟨_, rfl⟩
    obtain ⟨count, alone⟩ := alone
    rw [pollAll_cons, alone]
    cases (s.poll t).1 with
    | none => exact ih _
    | some left => exact ⟨count, rfl⟩

/-- What is left of sleeps that are asked for when none has begun. -/
theorem pollAll_idle (lengths : List Nat) (t : Timeline) :
    ((pollAll (lengths.map idle) t).1 = [] ∧ lengths.sum = 0) ∨
      (Running (t.now + 1) (pollAll (lengths.map idle) t).1 ∧
        overAll t.now (pollAll (lengths.map idle) t).1 = t.now + lengths.sum) := by
  induction lengths generalizing t with
  | nil => exact .inl ⟨rfl, rfl⟩
  | cons length rest ih =>
    cases length with
    | zero => simpa [pollAll, poll] using ih t
    | succ length =>
      refine .inr ⟨.intro (by simp) rest, ?_⟩
      have onward : overAll t.now (pollAll (((length + 1) :: rest).map idle) t).1 =
          overAll (t.now + (length + 1)) (rest.map idle) := rfl
      rw [onward, overAll_idle, List.sum_cons, Nat.add_assoc]

/-- Asking sleeps in time: they are over if they are due, and otherwise one is running, and they will
    be over when they would have been. -/
theorem pollAll_cases {sleeps : List Sleep} {t : Timeline} (timely : Timely t.now sleeps) :
    ((pollAll sleeps t).1 = [] ∧ overAll t.now sleeps = t.now) ∨
      (Running (t.now + 1) (pollAll sleeps t).1 ∧
        overAll t.now (pollAll sleeps t).1 = overAll t.now sleeps) := by
  cases timely with
  | idle lengths =>
    rw [overAll_idle]
    obtain ⟨ended, atOnce⟩ | waits := pollAll_idle lengths t
    · exact .inl ⟨ended, by omega⟩
    · exact .inr waits
  | running running =>
    obtain ⟨ahead, lengths⟩ := running
    rename_i alarm
    have onward : overAll t.now (running alarm :: lengths.map idle) = alarm.deadline + lengths.sum :=
      overAll_idle alarm.deadline lengths
    -- The sleep that is running is over, and the ones behind it are begun, or nothing changes.
    by_cases due : alarm.deadline ≤ t.now
    · have asked : pollAll (.running alarm :: lengths.map idle) t = pollAll (lengths.map idle) t := by
        simp [pollAll, poll, due]
      have same : alarm.deadline = t.now := by omega
      rw [asked, onward, same]
      obtain ⟨ended, atOnce⟩ | waits := pollAll_idle lengths t
      · exact .inl ⟨ended, by omega⟩
      · exact .inr waits
    · have asked : (pollAll (.running alarm :: lengths.map idle) t).1 =
          .running alarm :: lengths.map idle := by
        simp [pollAll, poll, due]
      rw [asked]
      exact .inr ⟨.intro (by omega) lengths, rfl⟩

end Sleep

namespace Pace

/-- When a value settles that is asked at an instant, if it ever does. -/
def due? (now : Nat) (p : Pace) : Option Nat :=
  if p.never then none else some (Sleep.overAll now p.sleeps)

/-- A value that has been asked for and does not settle before an instant. -/
structure Awaits (now : Nat) (p : Pace) : Prop where
  begun : p.begun = true
  sleeps : Sleep.Running now p.sleeps ∨ p.sleeps = [] ∧ p.never = true

namespace Awaits

variable {p : Pace} {now : Nat} (awaits : p.Awaits now)

include awaits

/-- When a value settles does not depend on when it is asked, and is not too early. -/
theorem due_eq (other : Nat) : p.due? other = p.due? now := by
  unfold due?
  split
  · rfl
  · rename_i ever
    obtain running | ⟨-, never⟩ := awaits.sleeps
    · rw [(running.overAll_eq other).1]
    · exact absurd never ever

theorem le_due {time : Nat} (isDue : p.due? now = some time) : now ≤ time := by
  unfold due? at isDue
  split at isDue
  · cases isDue
  · rename_i ever
    obtain running | ⟨-, never⟩ := awaits.sleeps
    · exact Option.some.inj isDue ▸ (running.overAll_eq now).2
    · exact absurd never ever

/-- Nothing of it has been overslept. -/
theorem timely : Sleep.Timely now p.sleeps := by
  obtain running | ⟨none, -⟩ := awaits.sleeps
  · exact .running running
  · rw [none]
    exact .idle []

/-- A value stays on its way as long as time does not pass the end of the sleep that is running. -/
theorem pass {later : Nat}
    (stops : ∀ alarm ∈ p.alarm?, now ≤ alarm.deadline → later ≤ alarm.deadline) :
    p.Awaits later where
  begun := awaits.begun
  sleeps := awaits.sleeps.imp_left fun running => running.pass stops

end Awaits

/-- What asking a value comes to, and what is left of its sleeps. -/
theorem poll_eq (p : Pace) (t : Timeline) : ∃ count,
    let left := (Sleep.pollAll p.sleeps (p.begin t)).1
    let asked : Timeline := { p.begin t with sleeps := count }
    p.poll t =
      if left = [] ∧ p.never = false then (none, asked.note (.settled p.label))
      else (some { p with begun := true, sleeps := left }, asked) := by
  obtain ⟨count, same⟩ := Sleep.pollAll_timeline p.sleeps (p.begin t)
  refine ⟨count, ?_⟩
  rw [poll_def, same]
  cases (Sleep.pollAll p.sleeps (p.begin t)).1 with
  | nil => cases p.never <;> rfl
  | cons s rest => exact (if_neg fun both => List.cons_ne_nil s rest both.1).symm

/-- A value that is still on its way keeps its label. -/
theorem label_of_poll {p left : Pace} {t timeline : Timeline}
    (asked : p.poll t = (some left, timeline)) : left.label = p.label := by
  obtain ⟨count, same⟩ := p.poll_eq t
  rw [asked] at same
  dsimp only at same
  split at same
  · cases same
  · simp only [Prod.mk.injEq, Option.some.injEq] at same
    rw [same.1]

/-- What asking a value writes down about a content. -/
theorem moments_poll (cell : Nat) (p : Pace) (t : Timeline) :
    (p.poll t).2.moments cell = t.moments cell +
      (Moment.at t.now (if p.begun then none else (Event.started p.label).about cell) +
        Moment.at t.now (if (p.poll t).1 = none then (Event.settled p.label).about cell else none)) := by
  have first : (p.begin t).moments cell = t.moments cell +
      Moment.at t.now (if p.begun then none else (Event.started p.label).about cell) := by
    unfold begin
    split <;> simp
  obtain ⟨count, same⟩ := p.poll_eq t
  have counted : ({ p.begin t with sleeps := count } : Timeline).moments cell =
      (p.begin t).moments cell := rfl
  rw [same]
  dsimp only
  split
  · rw [Timeline.moments_note, counted, first, begin_now, add_assoc]
    simp
  · rw [counted, first]
    simp

/-- Asking a value has nothing to do with slots. -/
theorem slots_poll (p : Pace) (t : Timeline) :
    (p.poll t).2.registrations = t.registrations ∧ (p.poll t).2.placements = t.placements := by
  have first : (p.begin t).registrations = t.registrations ∧
      (p.begin t).placements = t.placements := by
    unfold begin
    split <;> simp [Event.registered?, Event.placed?]
  obtain ⟨count, same⟩ := p.poll_eq t
  rw [same]
  dsimp only
  split
  · rw [Timeline.registrations_note, Timeline.placements_note]
    simp only [Event.registered?, Event.placed?, Option.map_none, Option.toList_none,
      List.append_nil]
    exact first
  · exact first

/-- A value that is asked in time settles if it is due, and otherwise it stays due when it was. -/
theorem poll_cases {p : Pace} {t : Timeline} (timely : Sleep.Timely t.now p.sleeps) :
    (∃ timeline, p.poll t = (none, timeline) ∧ p.due? t.now = some t.now) ∨
      ∃ left timeline, p.poll t = (some left, timeline) ∧ left.Awaits (t.now + 1) ∧
        left.due? t.now = p.due? t.now := by
  obtain ⟨count, same⟩ := p.poll_eq t
  have asked := Sleep.pollAll_cases (t := p.begin t) (by rwa [begin_now])
  rw [begin_now] at asked
  dsimp only at same
  obtain ⟨isOver, isDue⟩ | ⟨running, later⟩ := asked
  · cases never : p.never with
    | false =>
      rw [if_pos ⟨isOver, never⟩] at same
      exact .inl ⟨_, same, by simp [due?, never, isDue]⟩
    | true =>
      rw [if_neg (by simp [never])] at same
      exact .inr ⟨_, _, same, ⟨rfl, .inr ⟨isOver, never⟩⟩, by simp [due?, never]⟩
  · rw [if_neg fun both => running.ne_nil both.1] at same
    exact .inr ⟨_, _, same, ⟨rfl, .inl running⟩, by simp [due?, later]⟩

end Pace

/-- Asking a sleep writes nothing down. -/
theorem Sleep.journal_poll (s : Sleep) (t : Timeline) : (s.poll t).2.journal = t.journal := by
  unfold poll
  split
  · rfl
  · rfl
  · split <;> rfl

namespace Race

/-- A race writes down what its value writes down. -/
theorem journal_poll (r : Race) (t : Timeline) :
    (r.poll t).2.journal = (r.pace.poll t).2.journal := by
  have same := r.timer.journal_poll (r.pace.poll t).2
  rw [poll_def]
  cases (r.pace.poll t).1 with
  | none => rfl
  | some pace => cases (r.timer.poll (r.pace.poll t).2).1 <;> exact same

/-- A race is settled when its value is. -/
theorem settled_iff (r : Race) (t : Timeline) :
    (r.poll t).1 = .settled ↔ (r.pace.poll t).1 = none := by
  rw [poll_def]
  cases (r.pace.poll t).1 with
  | none => simp
  | some pace => cases (r.timer.poll (r.pace.poll t).2).1 <;> simp

/-- What asking a race writes down about a content. -/
theorem moments_poll (cell : Nat) (r : Race) (t : Timeline) :
    (r.poll t).2.moments cell = t.moments cell +
      (Moment.at t.now (if r.pace.begun then none else (Event.started r.pace.label).about cell) +
        Moment.at t.now
          (if (r.poll t).1 = .settled then (Event.settled r.pace.label).about cell else none)) := by
  have same : (r.poll t).2.moments cell = (r.pace.poll t).2.moments cell := by
    rw [Timeline.moments, journal_poll]
    rfl
  rw [same, r.pace.moments_poll]
  simp only [settled_iff]

/-- Asking a race has nothing to do with slots. -/
theorem slots_poll (r : Race) (t : Timeline) :
    (r.poll t).2.registrations = t.registrations ∧ (r.poll t).2.placements = t.placements := by
  have same : (r.poll t).2.registrations = (r.pace.poll t).2.registrations ∧
      (r.poll t).2.placements = (r.pace.poll t).2.placements := by
    simp only [Timeline.registrations, Timeline.placements, journal_poll, and_self]
  rw [same.1, same.2]
  exact r.pace.slots_poll t

/-- A race goes on with its value. -/
theorem label_of_poll {r : Race} {t timeline : Timeline} {pace : Pace}
    (asked : r.poll t = (.timedOut pace, timeline) ∨
      ∃ timer, r.poll t = (.running ⟨pace, timer⟩, timeline)) : pace.label = r.pace.label := by
  unfold poll at asked
  split at asked
  · simp at asked
  · rename_i first
    rw [← Pace.label_of_poll first]
    split at asked <;> simp_all

/-- A race that is asked in time is won by what is due first, by the value if both are due; what is not
    due stays due when it was. -/
theorem poll_cases {r : Race} {t : Timeline} (timely : Sleep.Timely t.now r.pace.sleeps)
    (timer : Sleep.Timely t.now [r.timer]) :
    (∃ timeline, r.poll t = (.settled, timeline) ∧ r.pace.due? t.now = some t.now) ∨
      (∃ pace timeline, r.poll t = (.timedOut pace, timeline) ∧ pace.Awaits (t.now + 1) ∧
        pace.due? t.now = r.pace.due? t.now ∧ r.timer.endsAt t.now = t.now) ∨
      ∃ pace left timeline, r.poll t = (.running ⟨pace, left⟩, timeline) ∧
        pace.Awaits (t.now + 1) ∧ pace.due? t.now = r.pace.due? t.now ∧
        Sleep.Running (t.now + 1) [left] ∧ left.endsAt t.now = r.timer.endsAt t.now := by
  obtain ⟨timeline, asked, isDue⟩ | ⟨pace, timeline, asked, awaits, same⟩ := Pace.poll_cases timely
  · exact .inl ⟨timeline, by simp [poll, asked], isDue⟩
  · have now : timeline.now = t.now := by
      have now := r.pace.poll_now t
      rwa [asked] at now
    have timed := Sleep.pollAll_cases (t := timeline) (by rwa [now])
    rw [now] at timed
    -- The value is not there yet: the timer, asked at the same instant, decides between the other two.
    rcases rung : r.timer.poll timeline with ⟨_ | left, after⟩
    · refine .inr (.inl ⟨pace, after, by simp [poll, asked, rung], awaits, same, ?_⟩)
      have isOver : (Sleep.pollAll [r.timer] timeline).1 = [] := by
        simp [Sleep.pollAll, rung]
      obtain ⟨-, isDue⟩ | ⟨running, -⟩ := timed
      · exact isDue
      · rw [isOver] at running
        cases running
    · refine .inr (.inr ⟨pace, left, after, by simp [poll, asked, rung], awaits, same, ?_⟩)
      have goesOn : (Sleep.pollAll [r.timer] timeline).1 = [left] := by
        simp [Sleep.pollAll, rung]
      rw [goesOn] at timed
      obtain ⟨isOver, -⟩ | waits := timed
      · cases isOver
      · exact waits

end Race

end ProgressiveHtml
