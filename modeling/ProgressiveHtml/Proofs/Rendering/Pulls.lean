import ProgressiveHtml.Proofs.Rendering.Notes

namespace ProgressiveHtml

/-!
# Renderings — none of them asks a sequence

The journal tells which supplies were asked for one more element, and the answers that the registry has
given tell how often it was asked.  No rendering of a tree writes such an entry or asks the registry, and
neither do the fragments it hands in.  So nothing that happens in the background asks a sequence.

* `Timeline.pulls`, `EventLoop.calls` — the sequences that were asked, in order;
* `Rendering.PullsNothing`, `Rendering.pullsNothing_iff_notes` — renderings that ask none;
* `Built.pullsNothing_rendering` — those of trees, wherever they stand;
* `EventLoop.PullsNothing.meanwhile` — the background asks none.
-/

/-- The name of the sequence that was asked for an element. -/
def Event.pulled? : Event → Option String
  | pulled name => some name
  | _ => none

/-- The sequences that were asked for one more element, in order. -/
def Timeline.pulls (t : Timeline) : List String := t.events.filterMap Event.pulled?

namespace Timeline

@[simp] theorem pulls_note (t : Timeline) (event : Event) :
    (t.note event).pulls = t.pulls ++ event.pulled?.toList := by
  rw [pulls, events_note, List.filterMap_append]
  cases event <;> rfl

end Timeline

theorem Event.IsRoutine.pulled?_eq {event : Event} (routine : event.IsRoutine) :
    event.pulled? = none := by
  cases routine <;> rfl

theorem Event.OfFragment.pulled?_eq {event : Event} (ofFragment : event.OfFragment) :
    event.pulled? = none := by
  cases ofFragment <;> rfl

namespace Rendering

mutual

/-- No way of going on asks a sequence for an element, neither here nor in a fragment that is handed
    in. -/
def PullsNothing : Rendering → Prop
  | done _ => True
  | failed _ => True
  | panicked _ => True
  | note event next => event.pulled? = none ∧ next.PullsNothing
  | claim _ next => next.PullsNothing
  | number _ next => ∀ first, (next first).PullsNothing
  | outstanding next => ∀ pending, (next pending).PullsNothing
  | register content next =>
    (∀ slot, (content slot).PullsNothing) ∧ ∀ slot, (next slot).PullsNothing
  | wait _ next => next.PullsNothing
  | race _ inTime late => inTime.PullsNothing ∧ ∀ pace, (late pace).PullsNothing
  | join parts next => PullNothing parts ∧ ∀ texts, (next texts).PullsNothing
  | attempt body next => body.PullsNothing ∧ ∀ result, (next result).PullsNothing
termination_by structural r => r

/-- The same of siblings. -/
def PullNothing : List Rendering → Prop
  | [] => True
  | part :: rest => part.PullsNothing ∧ PullNothing rest
termination_by structural parts => parts

end

/-- A rendering asks nothing if no event that it notes tells of a request. -/
theorem pullsNothing_iff_notes {r : Rendering} : r.PullsNothing ↔ r.Notes (·.pulled? = none) := by
  induction r using Rendering.rec
    (motive_2 := fun parts => PullNothing parts ↔ NoteAll (·.pulled? = none) parts) with
  | done | failed | panicked | nil => exact .rfl
  | note _ _ ih => exact and_congr_right' ih
  | claim _ _ ih => exact ih
  | wait _ _ ih => exact ih
  | number _ _ ih | outstanding _ ih => exact forall_congr' ih
  | register _ _ content ih => exact and_congr (forall_congr' content) (forall_congr' ih)
  | race _ _ _ inTime late => exact and_congr inTime (forall_congr' late)
  | join _ _ parts ih => exact and_congr parts (forall_congr' ih)
  | attempt _ _ body ih => exact and_congr body (forall_congr' ih)
  | cons _ _ part rest => exact and_congr part rest

end Rendering

/-- What is done with a value once it has taken its time. -/
theorem Eventual.pullsNothing_conclude {α : Type} (value : Eventual α) {next : α → Rendering}
    (onward : (next value.result).PullsNothing) : (value.conclude next).PullsNothing :=
  Rendering.pullsNothing_iff_notes.2 (value.notes_conclude (Rendering.pullsNothing_iff_notes.1 onward))

/-- What sequences have been asked: the supplies, by their names, and the registry, by its answers. -/
@[ext] structure Calls where
  pulls : List String := []
  answers : List Answer := []

namespace Calls

instance : Append Calls :=
  ⟨fun first second => ⟨first.pulls ++ second.pulls, first.answers ++ second.answers⟩⟩

theorem append_def (first second : Calls) :
    first ++ second = ⟨first.pulls ++ second.pulls, first.answers ++ second.answers⟩ := rfl

@[simp] theorem append_empty (calls : Calls) : calls ++ ({} : Calls) = calls := by
  simp [append_def]

theorem append_assoc (first second third : Calls) :
    first ++ second ++ third = first ++ (second ++ third) := by
  simp [append_def]

end Calls

/-- No step of a rendering asks the registry. -/
theorem Rendering.Steps.answers_eq {r r' : Rendering} {w w' : EventLoop} {handed : List Registration}
    (steps : Steps r w handed r' w') : w'.answers = w.answers := by
  have one {r r' : Rendering} {w w' : EventLoop} {handed : List Registration}
      (step : Step r w handed r' w') : w'.answers = w.answers := by
    induction step with
    | part _ _ _ _ ih | body _ _ ih => exact ih
    | _ => rfl
  induction steps with
  | refl => rfl
  | head step _ ih => exact ih.trans (one step)

namespace EventLoop

/-- What sequences have been asked so far. -/
def calls (w : EventLoop) : Calls := ⟨w.timeline.pulls, w.answers⟩

/-- A report of the library is about no request. -/
theorem calls_note (w : EventLoop) (notice : Notice) : (w.note (.notice notice)).calls = w.calls :=
  Calls.ext ((w.timeline.pulls_note _).trans (List.append_nil _)) rfl

/-- No late fragment asks a sequence for an element. -/
def PullsNothing (w : EventLoop) : Prop := ∀ task ∈ w.registry.tasks, task.work.PullsNothing

variable {w w' : EventLoop} {r : Rendering} {new : List Happening}

theorem pullsNothing_iff_notes : w.PullsNothing ↔ w.Notes (·.pulled? = none) :=
  forall₂_congr fun _ _ => Rendering.pullsNothing_iff_notes

/-- What goes on without requests leaves the requests as they are, also later. -/
theorem Writes.pulls_eq (writes : w.Writes (·.pulled? = none) w') :
    w'.timeline.pulls = w.timeline.pulls ∧ w'.PullsNothing :=
  ⟨writes.adds.filterMap, pullsNothing_iff_notes.2 writes.notes⟩

/-- A rendering that is asked to go on asks no sequence. -/
theorem PullsNothing.poll (still : w.PullsNothing) (quiet : r.PullsNothing) :
    (r.poll w).2.calls = w.calls ∧ (r.poll w).1.PullsNothing ∧ (r.poll w).2.PullsNothing := by
  have notes := Rendering.pullsNothing_iff_notes.1 quiet
  have left := notes.ask (fun _ => Event.IsRoutine.pulled?_eq) w
  have writes := (pullsNothing_iff_notes.1 still).poll (fun _ => Event.IsRoutine.pulled?_eq) notes
  obtain ⟨handed, steps⟩ := r.poll_steps w
  exact ⟨Calls.ext writes.pulls_eq.1 steps.answers_eq, Rendering.pullsNothing_iff_notes.2 left,
    writes.pulls_eq.2⟩

/-- Nothing that happens in the background asks the registry. -/
theorem Meanwhile.answers_eq (moves : w.Meanwhile new w') : w'.answers = w.answers := by
  induction moves with
  | refl => rfl
  | head first _ ih =>
    refine ih.trans ?_
    cases first with
    | pass | finish => rfl
    | goOn _ steps => exact steps.answers_eq

/-- What happens in the background asks no sequence, however long it takes. -/
theorem PullsNothing.meanwhile (still : w.PullsNothing) (moves : w.Meanwhile new w') :
    w'.calls = w.calls ∧ w'.PullsNothing := by
  have writes := (pullsNothing_iff_notes.1 still).meanwhile (fun _ => Event.IsRoutine.pulled?_eq) moves
  exact ⟨Calls.ext writes.pulls_eq.1 moves.answers_eq, writes.pulls_eq.2⟩

/-- Giving up the registry asks no sequence. -/
theorem PullsNothing.released (still : w.PullsNothing) (same : w' = w ∨ w' = w.close) :
    w'.calls = w.calls ∧ w'.PullsNothing := by
  have writes := (pullsNothing_iff_notes.1 still).released same
  refine ⟨Calls.ext writes.pulls_eq.1 ?_, writes.pulls_eq.2⟩
  obtain rfl | rfl := same <;> rfl

/-- Asking the registry for a patch asks it once, and no other sequence. -/
theorem PullsNothing.drain (still : w.PullsNothing) :
    w.drain.2.calls = w.calls ++ ({ answers := [w.drain.1] } : Calls) ∧ w.drain.2.PullsNothing := by
  have writes := (pullsNothing_iff_notes.1 still).drain fun _ => Event.IsRoutine.pulled?_eq
  refine ⟨Calls.ext (writes.pulls_eq.1.trans (List.append_nil _).symm) ?_, writes.pulls_eq.2⟩
  unfold EventLoop.drain
  split
  · unfold handOut
    split <;> rfl
  · rfl

end EventLoop

end ProgressiveHtml
