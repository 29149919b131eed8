import ProgressiveHtml.Proofs.Document.Consumption
import ProgressiveHtml.Proofs.Related
import ProgressiveHtml.Proofs.Rendering.Twin

namespace ProgressiveHtml

/-!
# Event loop — two runs in step

Two runs that are in step stay so: when the fragments go on that were woken first, when time passes,
and when the next patch is asked for.

* `FragmentTask.Twin.task?`, `FragmentTask.Twin.due_eq` — the same fragments are on their way, and the
  same are woken;
* `EventLoop.InStep.runNext` — the turn of a fragment;
* `EventLoop.InStep.jump` — time passes;
* `EventLoop.InStep.drain`, `EventLoop.InStep.close` — asking for a patch, and giving up.
-/

open Rendering

/-! ### The same tasks -/

namespace FragmentTask.Twin

variable {F : String → Prop} {own : Nat → Prop} {task task' : FragmentTask}
  {tasks tasks' : List FragmentTask} {slot : Nat}

theorem slot_eq (twins : FragmentTask.Twin F own task task') : task.slot = task'.slot := by
  cases twins <;> rfl

/-- The same sleeps are waited for. -/
theorem alarms_eq (twins : FragmentTask.Twin F own task task') :
    task.work.alarms = task'.work.alarms := by
  cases twins with
  | same _ twins => exact twins.alarms_eq
  | late _ late =>
    cases late
    rfl

/-- The fragment with a slot is on its way in both runs or in none. -/
theorem task? {r r' : Registry} (all : List.Forall₂ (FragmentTask.Twin F own) r.tasks r'.tasks)
    (slot : Nat) :
    Option.Rel (fun work work' => FragmentTask.Twin F own ⟨slot, work⟩ ⟨slot, work'⟩)
      (r.task? slot) (r'.task? slot) := by
  unfold Registry.task?
  generalize r.tasks = tasks, r'.tasks = tasks' at all
  induction all with
  | nil => exact .none
  | @cons task task' _ _ first _ ih =>
    by_cases here : task.slot = slot
    · have there : task'.slot = slot := first.slot_eq.symm.trans here
      subst here
      have first : FragmentTask.Twin F own ⟨task.slot, task.work⟩ ⟨task.slot, task'.work⟩ := by
        rw [show (⟨task.slot, task'.work⟩ : FragmentTask) = task' from there ▸ rfl]
        exact first
      simpa [there] using Option.Rel.some first
    · have elsewhere : task'.slot ≠ slot := first.slot_eq ▸ here
      simpa [here, elsewhere] using ih

/-- The same sleeps are waited for by all fragments together. -/
theorem allAlarms_eq {r r' : Registry}
    (all : List.Forall₂ (FragmentTask.Twin F own) r.tasks r'.tasks) : r.alarms = r'.alarms := by
  unfold Registry.alarms
  generalize r.tasks = tasks, r'.tasks = tasks' at all
  induction all with
  | nil => rfl
  | cons first _ ih => rw [List.flatMap_cons, List.flatMap_cons, first.alarms_eq, ih]

/-- The same fragments are woken. -/
theorem due_eq {r r' : Registry} (all : List.Forall₂ (FragmentTask.Twin F own) r.tasks r'.tasks)
    (now : Nat) : r.due now = r'.due now := by
  unfold Registry.due
  dsimp only
  congr 2
  generalize r.tasks = tasks, r'.tasks = tasks' at all
  induction all with
  | nil => rfl
  | cons first _ ih =>
    rw [List.filterMap_cons, List.filterMap_cons, first.alarms_eq, first.slot_eq, ih]

end FragmentTask.Twin

namespace EventLoop.InStep

variable {F : String → Prop} {own : Nat → Prop} {w v : EventLoop}

/-! ### The turn of a fragment -/

/-- A fragment has got so far in both runs. -/
theorem keep (inStep : w.InStep F own v) {slot : Nat} {left left' : Rendering}
    (twins : FragmentTask.Twin F own ⟨slot, left⟩ ⟨slot, left'⟩) :
    InStep F own { w with registry := w.registry.keep slot left }
      { v with registry := v.registry.keep slot left' } := by
  refine { inStep with tasks := ?_ }
  refine List.rel_map ?_ inStep.tasks
  intro task task' same
  dsimp only
  rw [← same.slot_eq]
  split
  · exact twins
  · exact same

/-- A fragment is complete in both runs. -/
theorem deliver (inStep : w.InStep F own v) (slot : Nat) {item item' : Item}
    (same : item.SameBut own item') :
    InStep F own { w with registry := w.registry.deliver slot item }
      { v with registry := v.registry.deliver slot item' } := by
  refine { inStep with tasks := ?_, ready := List.rel_append inStep.ready (.cons same .nil) }
  refine List.rel_filter (fun task task' same => ?_) inStep.tasks
  dsimp only
  rw [same.slot_eq]

/-- A turn ends in both runs, and nothing has failed. -/
theorem conclude (inStep : w.InStep F own v) {slot : Nat} {left left' : Rendering}
    (twins : FragmentTask.Twin F own ⟨slot, left⟩ ⟨slot, left'⟩) (sound : left.fails = false) :
    InStep F own { w with registry := w.registry.conclude slot left }
      { v with registry := v.registry.conclude slot left' } := by
  have kept := inStep.keep twins
  unfold Registry.conclude
  cases twins with
  | same _ twins =>
    obtain ⟨waits, waits'⟩ | ⟨ended, same⟩ := twins.endsLike
    · rw [Registry.item?_of_waits waits, Registry.item?_of_waits waits']
      exact kept
    · -- What is over is the same in both, and it is a patch because nothing has failed.
      obtain rfl : left = left' := same
      cases left with
      | done markup => exact inStep.deliver slot (.ok (.inl rfl))
      | failed | panicked => cases sound
      | _ => cases ended
  | late _ late =>
    cases late
    exact kept

theorem woken (inStep : w.InStep F own v) (rest : List Nat) :
    InStep F own (w.woken rest) (v.woken rest) := { inStep with queue := rfl }

end EventLoop.InStep

/-- What a brief rendering without a failure comes to, once it has been asked, is there. -/
theorem Rendering.Brief.done_of_unfailing {r : Rendering} (brief : r.Brief) {w : EventLoop}
    (calm : Unfailing (r.asked w)) :
    ∃ markup w', r.poll w = (.done markup, w') ∧ w.Noted w' := by
  obtain ⟨ended, noted⟩ := brief.poll w
  have sound := calm.sound
  rcases asked : r.poll w with ⟨left, w'⟩
  rw [asked] at ended noted sound
  cases left with
  | done markup => exact ⟨markup, w', rfl, noted⟩
  | failed | panicked => cases sound
  | _ => cases ended

namespace EventLoop.InStep

variable {F : String → Prop} {all : List (Rendering × EventLoop)} {w v : EventLoop}

/-- A late fragment goes on whose slot is its own: it waits in both runs, or it is there in both. -/
theorem turn_late (inStep : w.InStep F (OwnSlot F all) v) {slot : Nat} (mine : OwnSlot F all slot)
    {work work' : Rendering} (late : work.Late work') (calm : Unfailing (work.asked w))
    (calm' : Unfailing (work'.asked v)) :
    InStep F (OwnSlot F all)
      { (work.poll w).2 with registry := (work.poll w).2.registry.conclude slot (work.poll w).1 }
      { (work'.poll v).2 with
        registry := (work'.poll v).2.registry.conclude slot (work'.poll v).1 } := by
  obtain ⟨pace, brief, brief'⟩ := late
  rename_i told told'
  obtain ⟨same, clock⟩ := pace.poll_agree inStep.clock
  have moved := inStep.timeline clock
  rw [asked_wait, Unfailing.unfailing_cons] at calm calm'
  rw [poll_wait, poll_wait, ← same]
  rw [← same] at calm'
  cases settles : (pace.poll w.timeline).1 <;> rw [settles] at calm calm'
  case some left => exact moved.conclude (.late mine (.mk left brief brief')) rfl
  case none =>
    -- What is shown differs, but it is there at once.
    obtain ⟨markup, after, ended, noted⟩ := brief.done_of_unfailing calm.2
    obtain ⟨markup', after', ended', noted'⟩ := brief'.done_of_unfailing calm'.2
    dsimp only
    rw [ended, ended']
    exact (moved.noted noted noted').deliver slot (.ok (.inr ⟨slot, mine, _, _, rfl, rfl⟩))

/-- The fragment that was woken first goes on in both runs. -/
theorem runNext (inStep : w.InStep F (OwnSlot F all) v) (missing : Missing F all)
    (inAll : w.askedNext ⊆ all) (calm : Unfailing w.askedNext) (calm' : Unfailing v.askedNext) :
    w.runNext.InStep F (OwnSlot F all) v.runNext := by
  have same := inStep.queue
  rcases queue : w.registry.queue with _ | ⟨slot, rest⟩ <;> rw [queue] at same
  · have idle : w.runNext = w := by simp [EventLoop.runNext, queue]
    have idle' : v.runNext = v := by simp [EventLoop.runNext, ← same]
    rw [idle, idle']
    exact inStep
  · have found := FragmentTask.Twin.task? inStep.tasks slot
    have woken := inStep.woken rest
    rcases here : w.registry.task? slot with _ | work <;>
      rcases there : v.registry.task? slot with _ | work' <;> rw [here, there] at found
    case none.none =>
      rw [runNext_of_none queue here, runNext_of_none same.symm there]
      exact woken
    case none.some | some.none => cases found
    case some.some =>
      have asks : w.askedNext = work.asked (w.woken rest) := by simp [askedNext, queue, here]
      have asks' : v.askedNext = work'.asked (v.woken rest) := by simp [askedNext, ← same, there]
      rw [asks] at inAll calm
      rw [asks'] at calm'
      rw [runNext_of_some queue here, runNext_of_some same.symm there, afterTurn, afterTurn]
      obtain ⟨twins⟩ := found
      cases twins with
      | same _ twins =>
        -- Where the two differ a value loses its race, and its slot becomes one of its own.
        obtain ⟨kept, inStep⟩ := twins.poll missing woken inAll
        exact inStep.conclude (.same slot kept) calm.sound
      | late mine late => exact woken.turn_late mine late calm calm'

/-! ### Time passes -/

/-- Time passes in both runs, and the same fragments are woken. -/
theorem jump {own : Nat → Prop} (inStep : w.InStep F own v) (alarms : List Alarm) (limit : Nat) :
    (w.jump alarms limit).InStep F own (v.jump alarms limit) := by
  have instant : w.nextInstant alarms limit = v.nextInstant alarms limit := by
    unfold nextInstant
    rw [inStep.now, FragmentTask.Twin.allAlarms_eq inStep.tasks]
  refine { inStep with clock := ⟨instant, inStep.clock.sleeps⟩, queue := ?_ }
  dsimp only [EventLoop.jump]
  rw [instant, FragmentTask.Twin.due_eq inStep.tasks]

/-! ### The registry is asked -/

end EventLoop.InStep

/-- Two answers bring items that are the same but for the patches of the slots `own`. -/
inductive Answer.SameBut (own : Nat → Prop) : Answer → Answer → Prop
  | item {given given' : Item} (same : given.SameBut own given') :
      SameBut own (.item given) (.item given')
  | finished : SameBut own .finished .finished
  | waiting : SameBut own .waiting .waiting

namespace EventLoop.InStep

variable {F : String → Prop} {own : Nat → Prop} {w v : EventLoop}

theorem noted_handOut (w : EventLoop) (item : Item) : w.Noted (handOut item w) := by
  unfold handOut
  split
  · exact .note w _
  · exact .refl w

/-- The registry is asked for the next patch in both runs. -/
theorem drain (inStep : w.InStep F own v) :
    w.drain.1.SameBut own v.drain.1 ∧ w.drain.2.InStep F own v.drain.2 := by
  have ready := inStep.ready
  unfold EventLoop.drain Registry.drain
  rcases here : w.registry.ready with _ | ⟨item, rest⟩ <;>
    rcases there : v.registry.ready with _ | ⟨item', rest'⟩ <;> rw [here, there] at ready
  case nil.nil =>
    dsimp only
    rw [← inStep.pending]
    by_cases none : w.registry.pending = 0
    · rw [if_pos none, if_pos none]
      exact ⟨.finished, { inStep with }⟩
    · rw [if_neg none, if_neg none]
      exact ⟨.waiting, { inStep with }⟩
  case nil.cons | cons.nil => cases ready
  case cons.cons =>
    obtain _ | ⟨same, others⟩ := ready
    refine ⟨.item same, ?_⟩
    have taken : InStep F own
        { w with
          registry := { w.registry with ready := rest, pending := w.registry.pending - 1 }
          answers := w.answers ++ [.item item] }
        { v with
          registry := { v.registry with ready := rest', pending := v.registry.pending - 1 }
          answers := v.answers ++ [.item item'] } :=
      { inStep with ready := others, pending := congrArg (· - 1) inStep.pending }
    exact taken.noted (noted_handOut _ _) (noted_handOut _ _)

/-- The registry is given up in both runs. -/
theorem close (inStep : w.InStep F own v) : w.close.InStep F own v.close :=
  { inStep with closed := rfl, queue := rfl, tasks := .nil, ready := .nil }

end EventLoop.InStep

end ProgressiveHtml
