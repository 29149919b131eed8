import ProgressiveHtml.Proofs.Rendering.Asked
import ProgressiveHtml.Proofs.Rendering.Spending

namespace ProgressiveHtml

/-!
# Renderings — a call from its start to its end

A rendering that stands somewhere in a tree goes on step by step, and anything else may happen between
its steps.  All that it can rely on is that what is used up stays so and that nothing is struck out of
the journal.

* `EventLoop.Onto`, `Rendering.Call` — what happens meanwhile, and the call of a rendering;
* `Rendering.Call.claim_inv`, `Rendering.Call.race_inv`, `Rendering.Call.andThen_inv` — how a call went on
  that has come to its end;
* `Rendering.Call.unrelated` — what a call hands in that does not wait for the value of a content.
-/

/-- What may happen between the steps of a rendering. -/
structure EventLoop.Onto (w w' : EventLoop) : Prop where
  used : w.used ⊆ w'.used
  events : w.timeline.events <+: w'.timeline.events

/-- What has been done with a content stays done. -/
theorem EventLoop.Onto.deeds {w w' : EventLoop} (onto : w.Onto w') (cell : Nat) :
    w.timeline.deeds cell ⊆ w'.timeline.deeds cell := by
  obtain ⟨new, same⟩ := onto.events
  rw [Timeline.deeds_of_events same.symm]
  exact List.subset_append_left _ _

namespace Rendering

/-- The call of a rendering, as far as it has got, and the fragments it has handed in. -/
inductive Call : Rendering → EventLoop → List Registration → Rendering → EventLoop → Prop
  | refl (r : Rendering) (w : EventLoop) : Call r w [] r w
  /-- The rendering goes on. -/
  | step {r r' r'' : Rendering} {w w' w'' : EventLoop} {more later : List Registration}
      (step : Step r w more r' w') (rest : Call r' w' later r'' w'') :
      Call r w (more ++ later) r'' w''
  /-- Something else happens. -/
  | aside {r r' : Rendering} {w w' w'' : EventLoop} {handed : List Registration}
      (onto : w.Onto w') (rest : Call r w' handed r' w'') : Call r w handed r' w''

namespace Call

variable {r r' : Rendering} {w w' : EventLoop} {handed : List Registration} {cell : Nat}

/-- The steps of a rendering, one after the other, are a call. -/
theorem of_steps (steps : Steps r w handed r' w') : Call r w handed r' w' := by
  induction steps with
  | refl => exact .refl _ _
  | head step _ ih => exact .step step ih

/-- What is used up stays used up. -/
theorem used (call : Call r w handed r' w') : w.used ⊆ w'.used := by
  induction call with
  | refl => exact List.Subset.refl _
  | step step _ ih => exact List.Subset.trans step.atOnce.used ih
  | aside onto _ ih => exact List.Subset.trans onto.used ih

/-! ### How a call went on -/

/-- A rendering that is over takes no step. -/
theorem of_isOver (ended : r.isOver) (call : Call r w handed r' w') : r' = r ∧ handed = [] := by
  induction call with
  | refl => exact ⟨rfl, rfl⟩
  | step step => cases step <;> cases ended
  | aside _ _ ih => exact ih ended

/-- The first step of a call. -/
theorem first (call : Call r w handed r' w') (ended : r'.isOver) (goesOn : r.isOver = false) :
    ∃ v more between v' later, w.used ⊆ v.used ∧ Step r v more between v' ∧
      handed = more ++ later ∧ Call between v' later r' w' := by
  induction call with
  | refl =>
    rw [ended] at goesOn
    cases goesOn
  | step step rest => exact ⟨_, _, _, _, _, List.Subset.refl _, step, rfl, rest⟩
  | aside onto _ ih =>
    obtain ⟨v, more, between, v', later, kept, step, same, rest⟩ := ih ended goesOn
    exact ⟨v, more, between, v', later, List.Subset.trans onto.used kept, step, same, rest⟩

/-- A content that is used up is refused; otherwise it is used up now. -/
theorem claim_inv {next : Rendering} (call : Call (claim cell next) w handed r' w')
    (ended : r'.isOver) :
    handed = [] ∧ r' = .failed .consumed ∧ cell ∈ w'.used ∨
      cell ∉ w.used ∧ ∃ v, cell ∈ v.used ∧ Call next v handed r' w' := by
  obtain ⟨v, more, between, v', later, kept, step, rfl, rest⟩ := call.first ended rfl
  cases step with
  | claim fresh next => exact .inr ⟨fun used => fresh (kept used), _, List.mem_cons_self, rest⟩
  | refuse used next =>
    obtain ⟨rfl, rfl⟩ := rest.of_isOver rfl
    exact .inl ⟨rfl, rfl, rest.used used⟩

/-- An event is written down before a call goes on. -/
theorem note_inv {event : Event} {next : Rendering} (call : Call (note event next) w handed r' w')
    (ended : r'.isOver) : ∃ v, w.used ⊆ v.used ∧ Call next v handed r' w' := by
  obtain ⟨v, more, between, v', later, kept, step, rfl, rest⟩ := call.first ended rfl
  cases step with
  | note event next => exact ⟨v.note event, kept, rest⟩

/-- A fragment is handed in before a call goes on. -/
theorem register_inv {content next : Nat → Rendering}
    (call : Call (register content next) w handed r' w') (ended : r'.isOver) :
    ∃ (v : EventLoop) (later : List Registration), handed = v.registration content :: later ∧
      w.used ⊆ v.used ∧ Call (next v.registry.next) (v.register content).2 later r' w' := by
  obtain ⟨v, more, between, v', later, kept, step, rfl, rest⟩ := call.first ended rfl
  cases step with
  | register content next => exact ⟨v, later, rfl, kept, rest⟩

/-- Whether it is written down that a value has settled. -/
def IsThere (label : Label) (w : EventLoop) : Prop :=
  ∀ cell, label.cell = some cell → .settled ∈ w.timeline.deeds cell

/-- A value that settles is written down. -/
theorem isThere_of_writes {pace : Pace} {timeline : Timeline}
    (events : timeline.events = w.timeline.events ++ pace.writes true) :
    IsThere pace.label { w with timeline } := by
  intro cell own
  rw [Timeline.deeds_of_events events]
  exact List.mem_append_right _ (Pace.settled_mem_writes own)

/-- A value settles before a call goes on. -/
theorem wait_inv {pace : Pace} {next : Rendering} (call : Call (wait pace next) w handed r' w')
    (ended : r'.isOver) :
    ∃ v, w.used ⊆ v.used ∧ IsThere pace.label v ∧ Call next v handed r' w' := by
  generalize same : wait pace next = r at call
  induction call generalizing pace with
  | refl =>
    subst same
    cases ended
  | step step rest ih =>
    subst same
    cases step with
    | wait asked next =>
      obtain ⟨v, kept, isThere, rest⟩ := ih ended rfl
      exact ⟨v, kept, Pace.label_of_poll asked ▸ isThere, rest⟩
    | settle asked next =>
      refine ⟨_, ?_, isThere_of_writes (Pace.events_of_settled asked), rest⟩
      exact List.Subset.refl _
  | aside onto _ ih =>
    obtain ⟨v, kept, rest⟩ := ih ended same
    exact ⟨v, List.Subset.trans onto.used kept, rest⟩

/-- A value settles in time, or its timer is first, before a call goes on. -/
theorem race_inv {r₀ : Race} {inTime : Rendering} {late : Pace → Rendering}
    (call : Call (race r₀ inTime late) w handed r' w') (ended : r'.isOver) :
    (∃ v, w.used ⊆ v.used ∧ IsThere r₀.pace.label v ∧ Call inTime v handed r' w') ∨
      ∃ pace v, pace.label = r₀.pace.label ∧ w.used ⊆ v.used ∧ Call (late pace) v handed r' w' := by
  generalize same : race r₀ inTime late = r at call
  induction call generalizing r₀ with
  | refl =>
    subst same
    cases ended
  | step step rest ih =>
    subst same
    cases step with
    | @race _ left _ _ asked =>
      obtain ⟨_, asks⟩ := Race.pace_of_poll (.inr ⟨left.timer, asked⟩)
      rw [← Pace.label_of_poll asks]
      exact ih ended rfl
    | inTime asked =>
      refine .inl ⟨_, ?_, isThere_of_writes (Race.events_of_settled asked), rest⟩
      exact List.Subset.refl _
    | @late _ pace _ _ asked =>
      obtain ⟨_, asks⟩ := Race.pace_of_poll (.inl asked)
      refine .inr ⟨pace, _, Pace.label_of_poll asks, ?_, rest⟩
      exact List.Subset.refl _
  | aside onto _ ih =>
    -- What happens beside the call uses up contents, but gives none back.
    obtain ⟨v, kept, rest⟩ | ⟨pace, v, label, kept, rest⟩ := ih ended same
    · exact .inl ⟨v, List.Subset.trans onto.used kept, rest⟩
    · exact .inr ⟨pace, v, label, List.Subset.trans onto.used kept, rest⟩

end Call

theorem isOver_andThen {r : Rendering} {k : String → Rendering} (goesOn : r.isOver = false) :
    (r.andThen k).isOver = false := by
  cases r with
  | done | failed | panicked => cases goesOn
  | _ => rfl

/-- What goes on with the markup of a rendering goes on with the rendering until it is over. -/
theorem Step.andThen_inv {r r' : Rendering} {w w' : EventLoop} {more : List Registration}
    {k : String → Rendering} (step : Step (r.andThen k) w more r' w') (goesOn : r.isOver = false) :
    ∃ left, Step r w more left w' ∧ r' = left.andThen k := by
  -- Each step of what goes on afterwards is the same step of the rendering, as long as that is not
  -- over.
  cases r with
  | done | failed | panicked => cases goesOn
  | note event next =>
    cases step
    exact ⟨_, .note event next w, rfl⟩
  | claim cell next =>
    cases step with
    | claim fresh => exact ⟨_, .claim fresh next, rfl⟩
    | refuse used => exact ⟨_, .refuse used next, rfl⟩
  | number size next =>
    cases step
    exact ⟨_, .number size next w, rfl⟩
  | outstanding next =>
    cases step
    exact ⟨_, .outstanding next w, rfl⟩
  | register content next =>
    cases step
    exact ⟨_, .register content next w, rfl⟩
  | wait pace next =>
    cases step with
    | wait asked => exact ⟨_, .wait asked next, rfl⟩
    | settle asked => exact ⟨_, .settle asked next, rfl⟩
  | race r inTime late =>
    cases step with
    | race asked => exact ⟨_, .race asked inTime late, rfl⟩
    | inTime asked => exact ⟨_, .inTime asked inTime late, rfl⟩
    | late asked => exact ⟨_, .late asked inTime late, rfl⟩
  | join parts next =>
    cases step with
    | part step before after => exact ⟨_, .part step before after next, rfl⟩
    | complete stands => exact ⟨_, .complete stands next w, rfl⟩
    | failPart stands => exact ⟨_, .failPart stands next w, rfl⟩
    | panicPart stands => exact ⟨_, .panicPart stands next w, rfl⟩
  | attempt body next =>
    cases step with
    | body step => exact ⟨_, .body step next, rfl⟩
    | succeed markup => exact ⟨_, .succeed markup next w, rfl⟩
    | recover error => exact ⟨_, .recover error next w, rfl⟩
    | panicBody message => exact ⟨_, .panicBody message next w, rfl⟩

namespace Call

variable {r r' : Rendering} {w w' : EventLoop} {handed : List Registration} {cell : Nat}

/-- A call comes to its end, and then what goes on with its markup does. -/
theorem andThen_inv {k : String → Rendering} (call : Call (r.andThen k) w handed r' w')
    (ended : r'.isOver) : ∃ first left v last, handed = first ++ last ∧ left.isOver ∧
      Call r w first left v ∧ Call (left.andThen k) v last r' w' := by
  generalize same : r.andThen k = whole at call
  induction call generalizing r with
  | refl whole w =>
    subst same
    cases stops : r.isOver with
    | true => exact ⟨[], r, w, [], rfl, stops, .refl r w, .refl _ w⟩
    | false =>
      rw [isOver_andThen stops] at ended
      cases ended
  | step step rest ih =>
    subst same
    cases stops : r.isOver with
    | true => exact ⟨[], r, _, _, rfl, stops, .refl r _, .step step rest⟩
    | false =>
      obtain ⟨between, own, rfl⟩ := step.andThen_inv stops
      obtain ⟨first, left, v, last, rfl, ends, call, onward⟩ := ih ended rfl
      exact ⟨_, left, v, last, (List.append_assoc ..).symm, ends, .step own call, onward⟩
  | aside onto _ ih =>
    obtain ⟨first, left, v, last, rfl, ends, call, onward⟩ := ih ended same
    exact ⟨first, left, v, last, rfl, ends, .aside onto call, onward⟩

/-- What a call hands in when its content is used up, and no value of it is still to settle. -/
theorem unrelated (call : Call r w handed r' w') (used : cell ∈ w.used)
    {known : List Registration} {ahead : Multiset Deed}
    (allows : r.Allows cell known (w.timeline.deeds cell) ahead) (isThere : .settled ∉ ahead) :
    ∀ given ∈ handed, ¬given.Of cell := by
  induction call generalizing known ahead with
  | refl => simp
  | @step r between _ w v _ more later step rest ih =>
    obtain ⟨kept, new, ofMore, left, -, -, allowsMore, allowsLeft, enough⟩ := step.spends allows
    have spent : Event.deeds cell new + (ofMore + left) ≤ ahead := by
      simpa [EventLoop.reserve, used, kept used] using enough
    have onward : ofMore + left ≤ ahead := le_trans (Multiset.le_add_left ..) spent
    intro given member
    obtain isMore | isLater := List.mem_append.1 member
    · rintro ⟨pace, told, waits, own⟩
      obtain ⟨here, within, allowsHere⟩ := allowsMore.of_mem (List.mem_map_of_mem isMore)
      rw [show given.task.work = given.content given.slot from rfl, waits] at allowsHere
      have settles := allowsHere.settled_mem_wait own
      exact isThere (Multiset.mem_of_le
        (le_trans within (le_trans (Multiset.le_add_right ..) onward)) settles)
    · refine ih (kept used) allowsLeft.of_single (fun settles => isThere ?_) given isLater
      exact Multiset.mem_of_le (le_trans (Multiset.le_add_left ..) onward) settles
  | aside onto _ ih =>
    exact ih (onto.used used) (allows.later _ (List.Subset.refl _) (onto.deeds cell)) isThere

end Call

end Rendering

end ProgressiveHtml
