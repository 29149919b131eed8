import Mathlib.Data.List.Nodup
import ProgressiveHtml.Proofs.EventLoop.Background
import ProgressiveHtml.Proofs.Rendering.Asked

namespace ProgressiveHtml

/-!
# Event loop — the turn of a fragment

Fragments that were woken go on one after the other.  In its turn a fragment goes on as far as it gets;
if it comes to its end, its item is ready.

* `EventLoop.woken`, `EventLoop.afterTurn` — the states before and after the turn of a fragment;
* `EventLoop.runNext_of_none`, `EventLoop.runNext_of_some` — the turn of the fragment that was woken first;
* `EventLoop.askedNext`, `EventLoop.runNext_cases` — what is asked in that turn, and what comes of it;
* `EventLoop.tasks_afterTurn` — the fragments that are on their way after that turn;
* `EventLoop.completed?` — the fragment that comes to its end in that turn;
* `Registry.mem_due_iff` — which fragments are woken when time passes.
-/

namespace Registry

variable {r : Registry} {slot other : Nat}

/-! ### Fragments that are taken in -/

theorem register_queue (stillOpen : r.closed = false) (content : Nat → Rendering) :
    (r.register content).queue = r.queue ++ [r.next] := by
  rw [register, stillOpen, if_neg Bool.false_ne_true]

theorem register_tasks (stillOpen : r.closed = false) (content : Nat → Rendering) :
    (r.register content).tasks = r.tasks ++ [⟨r.next, content r.next⟩] := by
  rw [register, stillOpen, if_neg Bool.false_ne_true]

/-! ### The registry after a turn -/

/-- A rendering that is not over makes no item. -/
theorem item?_of_waits {r : Rendering} (waits : r.isOver = false) (slot : Nat) :
    item? slot r = none := by
  cases r with
  | done | failed | panicked => cases waits
  | _ => rfl

/-- The registry after the turn of a fragment that has got as far as `left`. -/
def conclude (r : Registry) (slot : Nat) (left : Rendering) : Registry :=
  match item? slot left with
  | some item => r.deliver slot item
  | none => r.keep slot left

theorem conclude_next (r : Registry) (slot : Nat) (left : Rendering) :
    (r.conclude slot left).next = r.next := by
  unfold conclude
  split <;> rfl

theorem conclude_queue (r : Registry) (slot : Nat) (left : Rendering) :
    (r.conclude slot left).queue = r.queue := by
  unfold conclude
  split <;> rfl

theorem conclude_closed (r : Registry) (slot : Nat) (left : Rendering) :
    (r.conclude slot left).closed = r.closed := by
  unfold conclude
  split <;> rfl

/-- After its turn a fragment is kept as far as it has got, unless it is over. -/
theorem conclude_tasks {work : Rendering} {before after : List FragmentTask}
    (split : r.tasks = before ++ ⟨slot, work⟩ :: after)
    (apart : ∀ task ∈ before ++ after, task.slot ≠ slot) (left : Rendering) :
    ∃ kept, (r.conclude slot left).tasks = before ++ (kept ++ after) ∧
      (kept = [⟨slot, left⟩] ∧ left.isOver = false ∨ kept = [] ∧ left.isOver) := by
  -- Neither removing the task nor replacing it concerns the tasks of other slots.
  have others {tasks : List FragmentTask} (apart : ∀ task ∈ tasks, task.slot ≠ slot) :
      tasks.filter (·.slot != slot) = tasks ∧
        (tasks.map fun task => if task.slot = slot then ⟨slot, left⟩ else task) = tasks := by
    constructor
    · exact List.filter_eq_self.2 fun task member => by simpa using apart task member
    · exact (List.map_congr_left fun task member => if_neg (apart task member)).trans
        (List.map_id _)
  obtain ⟨filterBefore, mapBefore⟩ := others fun task member =>
    apart task (List.mem_append_left _ member)
  obtain ⟨filterAfter, mapAfter⟩ := others fun task member =>
    apart task (List.mem_append_right _ member)
  unfold conclude
  split
  · rename_i item ended
    refine ⟨[], ?_, .inr ⟨rfl, ?_⟩⟩
    · simp [deliver, split, filterBefore, filterAfter]
    · cases left <;> simp_all [Rendering.isOver, item?]
  · rename_i none
    refine ⟨[⟨slot, left⟩], by simp [keep, split, mapBefore, mapAfter], .inl ⟨rfl, ?_⟩⟩
    cases left <;> simp_all [Rendering.isOver, item?]

/-- After its turn a fragment has an item ready, if it is over. -/
theorem conclude_ready (r : Registry) (slot : Nat) (left : Rendering) :
    (r.conclude slot left).ready.length = r.ready.length + if left.isOver then 1 else 0 := by
  unfold conclude
  cases left <;> simp [item?, deliver, keep, Rendering.isOver]

/-- A turn does not touch the other fragments. -/
theorem task?_conclude (apart : other ≠ slot) (left : Rendering) :
    (r.conclude slot left).task? other = r.task? other := by
  unfold conclude task?
  split
  · congr 1
    rw [deliver, List.find?_filter]
    congr 1
    funext task
    by_cases mine : task.slot = other <;> simp [mine, apart]
  · rw [keep, List.find?_map, Option.map_map]
    have sameSlot (task : FragmentTask) :
        (if task.slot = slot then ⟨slot, left⟩ else task).slot = task.slot := by
      split <;> simp_all
    have found : ((fun task : FragmentTask => task.slot == other) ∘
        fun task => if task.slot = slot then ⟨slot, left⟩ else task) = (·.slot == other) := by
      funext task
      simp [sameSlot]
    rw [found]
    cases isFound : r.tasks.find? (·.slot == other) with
    | none => rfl
    | some task =>
      have mine : task.slot = other := by simpa using List.find?_some isFound
      simp [mine, apart]

/-! ### Waking fragments -/

/-- Fragments are woken whose sleeps are over. -/
theorem mem_due_iff {now : Nat} :
    slot ∈ r.due now ↔
      ∃ task ∈ r.tasks, task.slot = slot ∧ ∃ alarm ∈ task.work.alarms, alarm.deadline ≤ now := by
  constructor
  · intro isDue
    obtain ⟨⟨number, _⟩, member, rfl⟩ := List.mem_map.1 isDue
    rw [List.mem_mergeSort] at member
    obtain ⟨task, here, found⟩ := List.mem_filterMap.1 member
    obtain ⟨first, isFirst, same⟩ := Option.map_eq_some_iff.1 found
    obtain ⟨alarm, isOver, -⟩ := List.mem_map.1 (List.min?_mem isFirst)
    obtain ⟨isRunning, ended⟩ := List.mem_filter.1 isOver
    exact ⟨task, here, congrArg Prod.snd same, alarm, isRunning, by simpa using ended⟩
  · rintro ⟨task, here, rfl, alarm, isRunning, ended⟩
    exact mem_due here isRunning ended

/-- No fragment is woken twice. -/
theorem due_nodup (once : (r.tasks.map (·.slot)).Nodup) (now : Nat) : (r.due now).Nodup := by
  unfold due
  refine (((List.mergeSort_perm _ _).map _).nodup_iff).2 ?_
  refine List.Nodup.sublist ?_ once
  rw [List.map_filterMap]
  induction r.tasks with
  | nil => exact .slnil
  | cons task rest ih =>
    rw [List.filterMap_cons]
    split
    · exact ih.cons _
    · rename_i found
      simp only [Option.map_map, Option.map_eq_some_iff, Function.comp_apply] at found
      obtain ⟨_, -, rfl⟩ := found
      exact ih.cons_cons _

end Registry

namespace EventLoop

/-! ### Turns -/

/-- The state in which the fragment goes on that was woken first, when the others are left. -/
def woken (rest : List Nat) (w : EventLoop) : EventLoop :=
  { w with registry := { w.registry with queue := rest } }

/-- The state after the turn of the fragment that was woken first, with this work left to do. -/
def afterTurn (slot : Nat) (rest : List Nat) (work : Rendering) (w : EventLoop) : EventLoop :=
  { (work.poll (w.woken rest)).2 with
    registry :=
      (work.poll (w.woken rest)).2.registry.conclude slot (work.poll (w.woken rest)).1 }

variable {w : EventLoop} {slot : Nat} {rest : List Nat}

theorem runNext_of_queue (queue : w.registry.queue = slot :: rest) :
    w.runNext = (w.woken rest).runTask slot := by
  simp [runNext, queue, woken]

/-- A fragment that is not on its way any more does nothing in its turn. -/
theorem runNext_of_none (queue : w.registry.queue = slot :: rest)
    (gone : w.registry.task? slot = none) : w.runNext = w.woken rest := by
  have none : (w.woken rest).registry.task? slot = none := gone
  rw [runNext_of_queue queue, runTask, none]

/-- A fragment that was woken goes on in its turn. -/
theorem runNext_of_some (queue : w.registry.queue = slot :: rest) {work : Rendering}
    (found : w.registry.task? slot = some work) : w.runNext = w.afterTurn slot rest work := by
  have here : (w.woken rest).registry.task? slot = some work := found
  rw [runNext_of_queue queue, runTask, here]
  dsimp only [afterTurn, Registry.conclude]
  cases Registry.item? slot (work.poll (w.woken rest)).1 <;> rfl

/-- The fragments on their way after the turn of one of them: it is kept unless it is over, and others
    may have been handed in. -/
theorem tasks_afterTurn {work : Rendering} {before after new : List FragmentTask}
    (split : w.registry.tasks = before ++ ⟨slot, work⟩ :: after)
    (once : ((work.poll (w.woken rest)).2.registry.tasks.map (·.slot)).Nodup)
    (added : (work.poll (w.woken rest)).2.registry.tasks = w.registry.tasks ++ new) :
    (∀ task ∈ before ++ after, task.slot ≠ slot) ∧
      ∃ kept, (w.afterTurn slot rest work).registry.tasks = before ++ (kept ++ (after ++ new)) ∧
        (kept = [⟨slot, (work.poll (w.woken rest)).1⟩] ∧
            (work.poll (w.woken rest)).1.isOver = false ∨
          kept = [] ∧ (work.poll (w.woken rest)).1.isOver) := by
  have all : (work.poll (w.woken rest)).2.registry.tasks =
      before ++ ⟨slot, work⟩ :: (after ++ new) := by
    rw [added, split, List.append_assoc, List.cons_append]
  have apart : ∀ task ∈ before ++ (after ++ new), task.slot ≠ slot := by
    intro task member same
    rw [all, List.map_append, List.map_cons, List.nodup_middle, List.nodup_cons,
      ← List.map_append] at once
    have listed : task.slot ∈ (before ++ (after ++ new)).map (·.slot) :=
      List.mem_map_of_mem member
    exact once.1 (same ▸ listed)
  refine ⟨fun task member => apart task ?_, Registry.conclude_tasks all apart _⟩
  rw [← List.append_assoc]
  exact List.mem_append_left _ member

/-- The renderings that are asked when the fragment goes on that was woken first. -/
def askedNext (w : EventLoop) : List (Rendering × EventLoop) :=
  match w.registry.queue with
  | [] => []
  | slot :: rest =>
    match w.registry.task? slot with
    | none => []
    | some work => work.asked (w.woken rest)

/-- Either there is nothing to do for the fragment that was woken first, or it goes on. -/
theorem runNext_cases (w : EventLoop) :
    (w.runNext = w ∧ w.askedNext = []) ∨
      ∃ slot rest, w.registry.queue = slot :: rest ∧
        ((w.registry.task? slot = none ∧ w.runNext = w.woken rest ∧ w.askedNext = []) ∨
          ∃ work, w.registry.task? slot = some work ∧
            w.askedNext = work.asked (w.woken rest) ∧ w.runNext = w.afterTurn slot rest work) := by
  cases queue : w.registry.queue with
  | nil => exact .inl ⟨by simp [runNext, queue], by simp [askedNext, queue]⟩
  | cons slot rest =>
    refine .inr ⟨slot, rest, rfl, ?_⟩
    cases here : w.registry.task? slot with
    | none => exact .inl ⟨rfl, runNext_of_none queue here, by simp [askedNext, queue, here]⟩
    | some work =>
      exact .inr ⟨work, rfl, by simp [askedNext, queue, here], runNext_of_some queue here⟩

/-- Without fragments on their way nothing comes of a turn. -/
theorem runNext_of_idle (idle : w.registry.tasks = []) : ∃ queue, w.runNext = w.woken queue := by
  obtain ⟨same, -⟩ | ⟨slot, rest, -, ⟨-, same, -⟩ | ⟨work, found, -⟩⟩ := w.runNext_cases
  · exact ⟨w.registry.queue, same⟩
  · exact ⟨rest, same⟩
  · simp [Registry.task?, idle] at found

/-- No time passes in the turn of a fragment. -/
theorem runNext_now (w : EventLoop) : w.runNext.now = w.now := by
  obtain ⟨same, -⟩ | ⟨slot, rest, -, ⟨-, same, -⟩ | ⟨work, -, -, same⟩⟩ := w.runNext_cases
  · rw [same]
  · rw [same]
    rfl
  · rw [same]
    exact work.poll_now (w.woken rest)

/-- A fragment that does not fail brings no error. -/
theorem runNext_clean {w : EventLoop} (calm : Rendering.Unfailing w.askedNext)
    (ready : ∀ error, .error error ∉ w.registry.ready) :
    ∀ error, .error error ∉ w.runNext.registry.ready := by
  obtain ⟨same, -⟩ | ⟨slot, rest, -, ⟨-, same, -⟩ | ⟨work, -, asks, same⟩⟩ := w.runNext_cases
  · rwa [same]
  · rw [same]
    exact ready
  · rw [asks] at calm
    have sound := calm.sound
    have unread : (work.poll (w.woken rest)).2.registry.ready = w.registry.ready :=
      (work.poll_atOnce (w.woken rest)).ready
    rw [same, afterTurn]
    generalize work.poll (w.woken rest) = went at sound unread
    obtain ⟨left, w'⟩ := went
    dsimp only [Registry.conclude] at sound unread ⊢
    cases left with
    | failed | panicked => cases sound
    | _ => simpa [Registry.item?, Registry.deliver, Registry.keep, unread] using ready

/-- The fragment that comes to its end in the turn of the one that was woken first. -/
def completed? (w : EventLoop) : Option Completion :=
  match w.registry.queue with
  | [] => none
  | slot :: rest =>
    match w.registry.task? slot with
    | none => none
    | some work =>
      (Registry.item? slot (work.poll (w.woken rest)).1).map
        (⟨slot, (work.poll (w.woken rest)).1, ·⟩)

theorem completed?_of_none (queue : w.registry.queue = slot :: rest)
    (gone : w.registry.task? slot = none) : w.completed? = none := by
  simp [completed?, queue, gone]

theorem completed?_of_some (queue : w.registry.queue = slot :: rest) {work : Rendering}
    (found : w.registry.task? slot = some work) : w.completed? =
      (Registry.item? slot (work.poll (w.woken rest)).1).map
        (⟨slot, (work.poll (w.woken rest)).1, ·⟩) := by
  simp [completed?, queue, found]

/-- Without fragments on their way none comes to its end. -/
theorem completed?_of_idle (idle : w.registry.tasks = []) : w.completed? = none := by
  cases queue : w.registry.queue with
  | nil => simp [completed?, queue]
  | cons slot rest => exact completed?_of_none queue (by simp [Registry.task?, idle])

end EventLoop

end ProgressiveHtml
