import Mathlib.Data.List.Forall2
import ProgressiveHtml.Proofs.Rendering.Resting

namespace ProgressiveHtml

/-!
# Renderings — when one ends

A rendering that is on its own is asked at once, and then whenever the first of the sleeps is over
that it waits for.  When and how it ends is thereby determined.

* `Rendering.EndsAt` — when and how a rendering ends that is to be asked now;
* `Rendering.ResumesAt` — the same of a rendering that was asked and waits;
* `Rendering.EndsAt.unique` — there is at most one such end;
* `Rendering.EndsLike`, `Rendering.verdict_of_endsLike` — renderings that are over together, and groups of
  them.
-/

/-- The same state at another instant. -/
def EventLoop.movedTo (now : Nat) (w : EventLoop) : EventLoop :=
  { w with timeline := { w.timeline with now } }

namespace Rendering

/-- When and how a rendering ends that is asked now, and then whenever the first sleep is over that it
    waits for. -/
inductive EndsAt : Rendering → EventLoop → (left : Rendering) → (time : Nat) → Prop
  | atOnce {r : Rendering} {w : EventLoop} (ended : (r.poll w).1.isOver) : EndsAt r w (r.poll w).1 w.now
  | later {r left : Rendering} {w : EventLoop} {time : Nat} {alarm : Alarm}
      (waits : (r.poll w).1.isOver = false) (isRunning : alarm ∈ (r.poll w).1.alarms)
      (first : ∀ other ∈ (r.poll w).1.alarms, alarm.deadline ≤ other.deadline)
      (rest : EndsAt (r.poll w).1 ((r.poll w).2.movedTo alarm.deadline) left time) : EndsAt r w left time

/-- When and how a rendering ends that waits for its first sleep to be over. -/
def ResumesAt (r : Rendering) (w : EventLoop) (left : Rendering) (time : Nat) : Prop :=
  ∃ alarm ∈ r.alarms, (∀ other ∈ r.alarms, alarm.deadline ≤ other.deadline) ∧
    r.EndsAt (w.movedTo alarm.deadline) left time

variable {r left left' : Rendering} {w : EventLoop} {time time' : Nat}

theorem endsAt_of_isOver (ended : (r.poll w).1.isOver) :
    r.EndsAt w left time ↔ left = (r.poll w).1 ∧ time = w.now := by
  constructor
  · intro ends
    cases ends with
    | atOnce => exact ⟨rfl, rfl⟩
    | later waits => simp [ended] at waits
  · rintro ⟨rfl, rfl⟩
    exact .atOnce ended

theorem endsAt_of_waiting (waits : (r.poll w).1.isOver = false) :
    r.EndsAt w left time ↔ (r.poll w).1.ResumesAt (r.poll w).2 left time := by
  constructor
  · intro ends
    cases ends with
    | atOnce ended => simp [waits] at ended
    | later _ isRunning first rest => exact ⟨_, isRunning, first, rest⟩
  · rintro ⟨alarm, isRunning, first, rest⟩
    exact .later waits isRunning first rest

/-- When and how a rendering ends depends only on what comes of asking it. -/
theorem endsAt_congr {r' : Rendering} {w' : EventLoop} (same : r.poll w = r'.poll w')
    (now : w.now = w'.now) : r.EndsAt w left time ↔ r'.EndsAt w' left time := by
  by_cases ended : (r.poll w).1.isOver
  · rw [endsAt_of_isOver ended, endsAt_of_isOver (same ▸ ended), same, now]
  · have waits : (r.poll w).1.isOver = false := Bool.not_eq_true _ ▸ ended
    rw [endsAt_of_waiting waits, endsAt_of_waiting (same ▸ waits), same]

/-- A rendering that waits is asked when its first sleep is over. -/
theorem resumesAt_iff {alarm : Alarm} (isRunning : alarm ∈ r.alarms)
    (first : ∀ other ∈ r.alarms, alarm.deadline ≤ other.deadline) :
    r.ResumesAt w left time ↔ r.EndsAt (w.movedTo alarm.deadline) left time := by
  constructor
  · rintro ⟨other, isOther, before, ends⟩
    rwa [Nat.le_antisymm (first other isOther) (before alarm isRunning)]
  · exact fun ends => ⟨alarm, isRunning, first, ends⟩

/-- There is at most one end. -/
theorem EndsAt.unique (ends : r.EndsAt w left time) (ends' : r.EndsAt w left' time') :
    left' = left ∧ time' = time := by
  induction ends with
  | atOnce ended => exact (endsAt_of_isOver ended).1 ends'
  | later waits isRunning first _ ih =>
    exact ih ((resumesAt_iff isRunning first).1 ((endsAt_of_waiting waits).1 ends'))

/-- What is left of a rendering that ends is over. -/
theorem EndsAt.isOver (ends : r.EndsAt w left time) : left.isOver := by
  induction ends with
  | atOnce ended => exact ended
  | later _ _ _ _ ih => exact ih

/-- The end does not lie in the past. -/
theorem EndsAt.now_le (ends : r.EndsAt w left time) : w.now ≤ time := by
  induction ends with
  | atOnce => exact Nat.le_refl _
  | @later r _ w _ alarm _ isRunning _ _ ih =>
    exact Nat.le_trans (Nat.le_of_lt ((r.rests_poll rfl).ahead alarm isRunning)) ih

/-- A rendering whose sleeps end later ends later. -/
theorem ResumesAt.now_lt {now : Nat} (ahead : ∀ alarm ∈ r.alarms, now < alarm.deadline)
    (resumes : r.ResumesAt w left time) : now < time := by
  obtain ⟨alarm, isRunning, -, ends⟩ := resumes
  exact Nat.lt_of_lt_of_le (ahead alarm isRunning) ends.now_le

/-! ### Over together -/

/-- Two renderings are over together, in the same way. -/
def EndsLike (r r' : Rendering) : Prop :=
  r.isOver = false ∧ r'.isOver = false ∨ r.isOver ∧ r = r'

/-- A sibling that is not over is not there. -/
theorem isDone_of_waits {part : Rendering} (waits : part.isOver = false) : part.isDone = false := by
  cases part with
  | done => cases waits
  | _ => rfl

/-- A sibling that is not over does not end its group. -/
theorem endsGroup_of_waits {part : Rendering} (waits : part.isOver = false) (prompt settled : Bool) :
    part.endsGroup prompt settled = false := by
  cases part with
  | failed | panicked => cases waits
  | _ => rfl

/-- What is over ends a small group unless it is there. -/
theorem endsGroup_of_isOver {r : Rendering} (ended : r.isOver) (broken : r.isDone = false) :
    r.endsGroup true false := by
  cases r with
  | done => cases broken
  | failed | panicked => rfl
  | _ => cases ended

/-- What ends a group is over, and it is not there. -/
theorem isOver_of_endsGroup {r : Rendering} {prompt settled : Bool} (ends : r.endsGroup prompt settled) :
    r.isOver ∧ r.isDone = false := by
  cases r with
  | failed | panicked => exact ⟨rfl, rfl⟩
  | _ => cases ends

/-- What ends a group only when everything before it is there finds everything there. -/
theorem settled_of_endsGroup {r : Rendering} {prompt settled : Bool} (ends : r.endsGroup prompt settled)
    (waits : ¬r.endsGroup prompt false) : settled := by
  cases r with
  | failed =>
    simp only [endsGroup, Bool.or_false, Bool.not_eq_true] at waits
    simpa [endsGroup, waits] using ends
  | panicked => exact absurd rfl waits
  | _ => cases ends

theorem isOver_of_isDone {r : Rendering} (isDone : r.isDone) : r.isOver := by
  cases r with
  | done => rfl
  | _ => cases isDone

theorem exists_markup_of_isDone {r : Rendering} (isDone : r.isDone) : ∃ markup, r = .done markup := by
  cases r with
  | done markup => exact ⟨markup, rfl⟩
  | _ => cases isDone

/-- A group with a sibling that is not over stands as the others do when not everything is there. -/
theorem verdictFrom_of_waits {part : Rendering} (waits : part.isOver = false) (prompt settled : Bool)
    (rest : List Rendering) :
    verdictFrom prompt settled (part :: rest) = verdictFrom prompt false rest := by
  cases part with
  | done | failed | panicked => cases waits
  | _ => simp only [verdictFrom]

namespace EndsLike

variable {part part' : Rendering}

theorem isDone_eq (like : part.EndsLike part') : part.isDone = part'.isDone := by
  obtain ⟨waits, waits'⟩ | ⟨-, rfl⟩ := like
  · rw [isDone_of_waits waits, isDone_of_waits waits']
  · rfl

theorem endsGroup_eq (like : part.EndsLike part') (prompt settled : Bool) :
    part.endsGroup prompt settled = part'.endsGroup prompt settled := by
  obtain ⟨waits, waits'⟩ | ⟨-, rfl⟩ := like
  · rw [endsGroup_of_waits waits, endsGroup_of_waits waits']
  · rfl

/-- Both have panicked, with the same message, or neither has. -/
theorem panicked_iff (like : part.EndsLike part') {message : String} :
    part = .panicked message ↔ part' = .panicked message := by
  obtain ⟨waits, waits'⟩ | ⟨-, rfl⟩ := like
  · constructor
    · rintro rfl
      cases waits
    · rintro rfl
      cases waits'
  · rfl

end EndsLike

/-- Groups stand the same way whose siblings are over together. -/
theorem verdictFrom_of_endsLike {parts parts' : List Rendering}
    (like : List.Forall₂ EndsLike parts parts') (prompt settled : Bool) :
    verdictFrom prompt settled parts = verdictFrom prompt settled parts' := by
  induction like generalizing settled with
  | nil => rfl
  | @cons part part' rest rest' first _ ih =>
    obtain ⟨waits, waits'⟩ | ⟨ended, rfl⟩ := first
    · rw [verdictFrom_of_waits waits, verdictFrom_of_waits waits']
      exact ih false
    · cases part with
      | done | failed | panicked => simp only [verdictFrom, ih]
      | _ => cases ended

theorem verdict_of_endsLike {parts parts' : List Rendering}
    (like : List.Forall₂ EndsLike parts parts') : verdict parts = verdict parts' := by
  rw [verdict, verdict, like.length_eq]
  exact verdictFrom_of_endsLike like _ true

end Rendering

end ProgressiveHtml
