import ProgressiveHtml.Event

namespace ProgressiveHtml

/-!
# Timeline — the clock and the journal of a run

Time is counted in whole milliseconds and passes only while everything waits.  A timeline holds the
present instant, how many sleeps have been started so far, and the journal of what has happened.

* `note` — write an event to the journal at the present instant;
* `Sleep` — waiting for a time, with `Sleep.poll` and its `alarm`.
-/

/-- The clock and the journal. -/
structure Timeline where
  /-- The present instant in milliseconds. -/
  now : Nat := 0
  /-- How many sleeps have been started; the next one gets this number. -/
  sleeps : Nat := 0
  /-- The document whose stream is being read at the moment. -/
  document : Option String := none
  /-- What has happened, in order. -/
  journal : Array Entry := #[]

namespace Timeline

/-- Write an event to the journal. -/
def note (t : Timeline) (event : Event) : Timeline :=
  { t with journal := t.journal.push ⟨t.now, event, t.document⟩ }

@[simp] theorem note_now (t : Timeline) (event : Event) : (t.note event).now = t.now := rfl

end Timeline

/-- When a started sleep ends, and its number among all sleeps started.  Sleeps that end together
    end in the order in which they were started. -/
structure Alarm where
  deadline : Nat
  number : Nat
  deriving DecidableEq

/-- Waiting for a time.  A sleep runs from the moment it is first asked for. -/
inductive Sleep where
  /-- Not started yet: it will last so many milliseconds. -/
  | idle (length : Nat)
  /-- Started. -/
  | running (alarm : Alarm)
  deriving DecidableEq

namespace Sleep

/-- Go on with a sleep: `none` once it is over.  A sleep of no length is over at once and is never
    counted as started. -/
def poll (s : Sleep) (t : Timeline) : Option Sleep × Timeline :=
  match s with
  | idle 0 => (none, t)
  | idle length =>
    (some (running ⟨t.now + length, t.sleeps⟩), { t with sleeps := t.sleeps + 1 })
  | running alarm => if alarm.deadline ≤ t.now then (none, t) else (some s, t)

/-- The alarm of a sleep that has been started. -/
def alarm? : Sleep → Option Alarm
  | idle _ => none
  | running alarm => some alarm

/-- Go on with several sleeps, one after the other; what is left of them. -/
def pollAll : List Sleep → Timeline → List Sleep × Timeline
  | [], t => ([], t)
  | s :: rest, t =>
    match s.poll t with
    | (none, t) => pollAll rest t
    | (some s, t) => (s :: rest, t)

/-- Time does not pass while a sleep is asked. -/
@[simp] theorem poll_now (s : Sleep) (t : Timeline) : (s.poll t).2.now = t.now := by
  unfold poll
  split
  · rfl
  · rfl
  · split <;> rfl

/-- The second of several sleeps is asked once the first is over. -/
theorem pollAll_cons (s : Sleep) (rest : List Sleep) (t : Timeline) :
    pollAll (s :: rest) t =
      match (s.poll t).1 with
      | none => pollAll rest (s.poll t).2
      | some left => (left :: rest, (s.poll t).2) := by
  rw [pollAll]
  rcases s.poll t with ⟨_ | left, later⟩ <;> rfl

/-- Time does not pass while sleeps are asked. -/
@[simp] theorem pollAll_now (sleeps : List Sleep) (t : Timeline) :
    (pollAll sleeps t).2.now = t.now := by
  induction sleeps generalizing t with
  | nil => rfl
  | cons s rest ih =>
    have same := s.poll_now t
    rw [pollAll_cons]
    cases (s.poll t).1 with
    | none => exact (ih _).trans same
    | some left => exact same

end Sleep

end ProgressiveHtml
