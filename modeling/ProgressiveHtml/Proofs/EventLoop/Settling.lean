import ProgressiveHtml.Proofs.EventLoop.Turn
import ProgressiveHtml.Proofs.Registry.Accounting
import ProgressiveHtml.Proofs.Rendering.Effort

namespace ProgressiveHtml

/-!
# Event loop — coming to rest

When all values in the late fragments settle, what is still to come of the fragments is bounded.  Turns
and time that passes make it less, until no fragment is on its way.

* `Rendering.Effort.poll` — asking a rendering, with all that it hands in;
* `EventLoop.Owes` — a bound on what is still to come of the late fragments;
* `EventLoop.Settling` — besides, each of them has been woken or waits;
* `EventLoop.Settling.turn`, `EventLoop.Settling.runNext` — turns;
* `EventLoop.Settling.jump` — time that passes;
* `EventLoop.Settling.exists_alarm` — fragments that are on their way wait for a sleep.
-/

open Rendering

/-- A rendering goes on: what is taken in of the fragments that it hands in is woken, and takes three off
    what is still to come, with what is to come of the contents. -/
theorem Rendering.Effort.poll {r : Rendering} {w : EventLoop} {n : Nat} (effort : r.Effort w.now n) :
    ∃ (given : List FragmentTask) (m a : Nat), (r.poll w).1.Effort w.now m ∧
      EffortAll (given.map (·.work)) w.now a ∧ m + a + 3 * given.length ≤ n ∧
      (r.poll w).2.registry.tasks = w.registry.tasks ++ given ∧
      (r.poll w).2.registry.queue = w.registry.queue ++ given.map (·.slot) ∧
      (r.poll w).2.registry.ready = w.registry.ready := by
  obtain ⟨handed, steps⟩ := r.poll_steps w
  obtain ⟨m, a, effort, handedIn, fewer⟩ := effort.steps steps
  obtain ⟨given, isGiven, tasks, queue, ready⟩ := steps.taken
  rw [r.poll_now] at effort handedIn
  refine ⟨given.map (·.task), m, a, effort, ?_, ?_, tasks, ?_, ready⟩
  · obtain rfl | rfl := isGiven
    · trivial
    · rwa [List.map_map]
  · obtain rfl | rfl := isGiven
    · rw [List.map_nil, List.length_nil]
      omega
    · rwa [List.length_map]
  · rw [List.map_map]
    exact queue

namespace EventLoop

/-- No more than `n` is still to come of the late fragments: of their contents, and one for each that has
    not been handed out. -/
def Owes (w : EventLoop) (n : Nat) : Prop :=
  ∃ a, EffortAll (w.registry.tasks.map (·.work)) w.now a ∧
    a + w.registry.tasks.length + w.registry.ready.length ≤ n

/-- The late fragments come to their ends: no more than `n` is still to come of them, and each has been
    woken or waits for a sleep. -/
structure Settling (w : EventLoop) (n : Nat) : Prop where
  owes : w.Owes n
  waits : ∀ task ∈ w.registry.tasks, task.slot ∈ w.registry.queue ∨
    task.work.isOver = false ∧ task.work.Rests w.now
  reached : ∃ h, Reached h w

namespace Settling

variable {w w' : EventLoop} {n b : Nat}

/-- Something else happens at the same instant. -/
theorem of_eq (settling : w.Settling n) (now : w'.now = w.now) (same : w'.registry = w.registry) :
    w'.Settling n := by
  obtain ⟨owes, waits, h, reached⟩ := settling
  refine ⟨?_, ?_, h, reached.elsewhere same⟩
  · unfold Owes
    rwa [now, same]
  · rwa [now, same]

/-- A rendering goes on, and fragments are woken that it hands in. -/
theorem poll {r : Rendering} (settling : w.Settling b) (effort : r.Effort w.now n) :
    ∃ m c woken, (r.poll w).1.Effort w.now m ∧ (r.poll w).2.Settling c ∧
      m + c + 2 * woken ≤ n + b ∧
      (r.poll w).2.registry.queue.length = w.registry.queue.length + woken := by
  obtain ⟨⟨a, tasks, bound⟩, waits, h, reached⟩ := settling
  obtain ⟨given, m, d, effort, handedIn, fewer, allTasks, queue, ready⟩ := effort.poll
  obtain ⟨handed, steps⟩ := r.poll_steps w
  have size : (r.poll w).2.registry.queue.length = w.registry.queue.length + given.length := by
    rw [queue, List.length_append, List.length_map]
  refine ⟨m, b + d + given.length, given.length, effort, ⟨⟨a + d, ?_, ?_⟩, ?_, _, reached.steps steps⟩,
    by omega, size⟩
  · rw [allTasks, List.map_append, r.poll_now]
    exact effortAll_append.2 ⟨a, d, Nat.le_refl _, tasks, handedIn⟩
  · rw [allTasks, ready, List.length_append]
    omega
  · intro task here
    rw [allTasks, List.mem_append] at here
    rw [queue, r.poll_now]
    obtain before | new := here
    · exact (waits task before).imp_left (List.mem_append_left _)
    · exact .inl (List.mem_append_right _ (List.mem_map_of_mem new))

/-! ### Turns -/

/-- A fragment that is not the first in turn has been woken behind it, or waits. -/
theorem waits_behind (settling : w.Settling n) {slot : Nat} {rest : List Nat}
    (queue : w.registry.queue = slot :: rest) (task : FragmentTask) (here : task ∈ w.registry.tasks)
    (apart : task.slot ≠ slot) :
    task.slot ∈ rest ∨ task.work.isOver = false ∧ task.work.Rests w.now := by
  refine (settling.waits task here).imp_left fun isWoken => ?_
  rw [queue] at isWoken
  exact (List.mem_cons.1 isWoken).resolve_left apart

/-- No fragment on its way has the slot that comes up in turn. -/
theorem lapse (settling : w.Settling n) {slot : Nat} {rest : List Nat}
    (queue : w.registry.queue = slot :: rest) (gone : w.registry.task? slot = none) :
    (w.woken rest).Settling n := by
  obtain ⟨h, reached⟩ := settling.reached
  refine ⟨settling.owes, fun task here => ?_, _, reached.background (.pass (Nat.le_refl w.now) rest)⟩
  apply settling.waits_behind queue task here
  intro same
  simp only [Registry.task?, Option.map_eq_none_iff, List.find?_eq_none] at gone
  exact gone task here (by simpa using same)

/-- A fragment has its turn.  The fragments that it hands in are woken behind the others, and are paid
    for by the three that each takes off. -/
theorem turn (settling : w.Settling n) {slot : Nat} {rest : List Nat}
    (queue : w.registry.queue = slot :: rest) {work : Rendering}
    (found : w.registry.task? slot = some work) :
    ∃ m ≤ n, (w.afterTurn slot rest work).Settling m ∧
      m + 2 * (w.afterTurn slot rest work).registry.queue.length ≤ n + 2 * rest.length := by
  have behind := settling.waits_behind queue
  obtain ⟨⟨a, tasks, bound⟩, waits, h, reached⟩ := settling
  -- The task of the slot is taken out of those that are on their way.
  obtain ⟨before, after, split⟩ := List.append_of_mem (Registry.mem_of_task? found)
  rw [split, List.map_append, List.map_cons] at tasks
  obtain ⟨c, d, within, earlier, e, f, inside, mine, others⟩ := effortAll_append.1 tasks
  have mine : work.Effort (w.woken rest).now e := mine
  obtain ⟨given, m, g, effort, handedIn, fewer, added, wokenNow, ready⟩ := mine.poll
  obtain ⟨new, moves⟩ := w.runNext_meanwhile
  have reachedNext := reached.meanwhile moves
  rw [runNext_of_some queue found] at reachedNext
  have now : (w.afterTurn slot rest work).now = w.now := work.poll_now (w.woken rest)
  obtain ⟨handed, steps⟩ := work.poll_steps (w.woken rest)
  have once := ((reached.background (.pass (Nat.le_refl w.now) rest)).steps steps).accounts.tasks_nodup
  obtain ⟨apart, kept, left, ending⟩ := tasks_afterTurn split once added
  have queued : (w.afterTurn slot rest work).registry.queue = rest ++ given.map (·.slot) :=
    (Registry.conclude_queue _ slot _).trans wokenNow
  have size : (w.afterTurn slot rest work).registry.ready.length = w.registry.ready.length +
      if (work.poll (w.woken rest)).1.isOver then 1 else 0 :=
    (Registry.conclude_ready _ slot _).trans (by rw [ready]; rfl)
  -- The fragment is still on its way, or its item is ready.
  have ofKept : EffortAll (kept.map (·.work)) w.now m ∧ kept.length +
      (if (work.poll (w.woken rest)).1.isOver then 1 else 0) = 1 := by
    obtain ⟨rfl, waiting⟩ | ⟨rfl, ended⟩ := ending
    · exact ⟨⟨m, 0, Nat.le_refl m, effort, trivial⟩, by rw [waiting]; rfl⟩
    · exact ⟨trivial, by rw [ended]; rfl⟩
  refine ⟨n - 2 * given.length, Nat.sub_le _ _, ⟨⟨c + (m + (f + g)), ?_, ?_⟩, ?_, _, reachedNext⟩, ?_⟩
  · rw [left, now, List.map_append, List.map_append, List.map_append]
    exact effortAll_append.2 ⟨c, _, Nat.le_refl _, earlier,
      effortAll_append.2 ⟨m, _, Nat.le_refl _, ofKept.1,
        effortAll_append.2 ⟨f, g, Nat.le_refl _, others, handedIn⟩⟩⟩
  · have all := congrArg List.length split
    rw [List.length_append, List.length_cons] at all
    rw [left, size, List.length_append, List.length_append, List.length_append]
    omega
  · rw [left, now, queued]
    intro task here
    have ofOther (member : task ∈ before ++ after) :
        task.slot ∈ rest ++ given.map (·.slot) ∨ task.work.isOver = false ∧ task.work.Rests w.now := by
      have isTask : task ∈ w.registry.tasks := by
        rw [split]
        simp only [List.mem_append, List.mem_cons] at member ⊢
        exact member.imp_right .inr
      exact (behind task isTask (apart task member)).imp_left (List.mem_append_left _)
    simp only [List.mem_append] at here
    obtain isBefore | isKept | isAfter | isNew := here
    · exact ofOther (List.mem_append_left _ isBefore)
    · obtain ⟨rfl, waiting⟩ | ⟨rfl, -⟩ := ending
      · obtain rfl := List.mem_singleton.1 isKept
        exact .inr ⟨waiting, work.rests_poll rfl⟩
      · cases isKept
    · exact ofOther (List.mem_append_right _ isAfter)
    · exact .inl (List.mem_append_right _ (List.mem_map_of_mem isNew))
  · rw [queued, List.length_append, List.length_map]
    omega

/-- The fragment that was woken first goes on. -/
theorem runNext (settling : w.Settling n) (busy : w.registry.queue ≠ []) :
    ∃ m ≤ n, w.runNext.Settling m ∧
      m + 2 * w.runNext.registry.queue.length + 2 ≤ n + 2 * w.registry.queue.length := by
  obtain ⟨slot, rest, queue⟩ := List.exists_cons_of_ne_nil busy
  rw [queue, List.length_cons]
  cases found : w.registry.task? slot with
  | none =>
    rw [runNext_of_none queue found]
    exact ⟨n, Nat.le_refl n, settling.lapse queue found, Nat.le_refl _⟩
  | some work =>
    rw [runNext_of_some queue found]
    obtain ⟨m, less, settling, fewer⟩ := settling.turn queue found
    exact ⟨m, less, settling, by omega⟩

/-! ### Time passes -/

/-- The sleeps of tasks are those of their contents. -/
theorem alarmsOfAll_map (tasks : List FragmentTask) :
    alarmsOfAll (tasks.map (·.work)) = tasks.flatMap (·.work.alarms) := by
  induction tasks with
  | nil => rfl
  | cons task rest ih => rw [List.map_cons, alarmsOfAll, ih, List.flatMap_cons]

/-- Not more fragments are woken than are on their way. -/
theorem length_due_le (r : Registry) (now : Nat) : (r.due now).length ≤ r.tasks.length := by
  unfold Registry.due
  rw [List.length_map, List.length_mergeSort]
  exact List.length_filterMap_le _ _

/-- Time passes, and fragments are woken of which a sleep is over. -/
theorem jump (settling : w.Settling n) (idle : w.registry.queue = []) (alarms : List Alarm)
    {limit : Nat} (ahead : w.now ≤ limit) :
    ∃ m ≤ n, (w.jump alarms limit).Settling m ∧
      (w.jump alarms limit).registry.queue.length ≤ m ∧
      ∀ alarm ∈ w.registry.alarms, w.nextInstant alarms limit ≤ alarm.deadline →
        m + (w.nextInstant alarms limit - w.now) ≤ n := by
  obtain ⟨⟨a, tasks, bound⟩, waits, h, reached⟩ := settling
  have passed := w.now_le_nextInstant alarms ahead
  have stillWaits : ∀ task ∈ (w.jump alarms limit).registry.tasks,
      task.slot ∈ (w.jump alarms limit).registry.queue ∨
        task.work.isOver = false ∧ task.work.Rests (w.nextInstant alarms limit) := by
    intro task here
    obtain isWoken | ⟨waiting, rests⟩ := waits task here
    · rw [idle] at isWoken
      cases isWoken
    · by_cases isDue : task.slot ∈ w.registry.due (w.nextInstant alarms limit)
      · exact .inl isDue
      · refine .inr ⟨waiting, rests.later fun alarm isRunning => ?_⟩
        by_contra ended
        exact isDue (Registry.mem_due here isRunning (Nat.le_of_not_lt ended))
  have reachedLater := reached.background (w.jump_background alarms ahead)
  have few := length_due_le w.registry (w.nextInstant alarms limit)
  -- What is to come of the tasks is as much as before, or less by the time that passes.
  have settles {c : Nat} (effort : EffortAll (w.registry.tasks.map (·.work))
      (w.nextInstant alarms limit) c) : (w.jump alarms limit).Settling
        (c + w.registry.tasks.length + w.registry.ready.length) :=
    ⟨⟨c, effort, Nat.le_refl _⟩, stillWaits, _, reachedLater⟩
  have queued : (w.jump alarms limit).registry.queue.length ≤ w.registry.tasks.length := few
  by_cases runs : ∃ alarm ∈ w.registry.alarms, w.nextInstant alarms limit ≤ alarm.deadline
  · obtain ⟨alarm, isRunning, early⟩ := runs
    have among : alarm ∈ alarmsOfAll (w.registry.tasks.map (·.work)) := by
      rwa [alarmsOfAll_map]
    obtain ⟨c, shorter, effort⟩ := EffortAll.pass tasks among passed early
    exact ⟨_, by omega, settles effort, by omega, fun _ _ _ => by omega⟩
  · refine ⟨_, by omega, settles (EffortAll.later tasks passed), by omega, fun alarm isRunning early => ?_⟩
    exact absurd ⟨alarm, isRunning, early⟩ runs

/-- When no fragment was woken, those that are on their way wait for a sleep. -/
theorem exists_alarm (settling : w.Settling n) (idle : w.registry.queue = [])
    (busy : w.registry.tasks ≠ []) : ∃ alarm ∈ w.registry.alarms, w.now < alarm.deadline := by
  obtain ⟨⟨a, tasks, -⟩, waits, -⟩ := settling
  obtain ⟨task, rest, split⟩ := List.exists_cons_of_ne_nil busy
  have here : task ∈ w.registry.tasks := split ▸ List.mem_cons_self
  obtain isWoken | ⟨waiting, rests⟩ := waits task here
  · rw [idle] at isWoken
    cases isWoken
  · rw [split] at tasks
    obtain ⟨b, c, -, effort, -⟩ := tasks
    obtain ⟨alarm, isRunning⟩ := effort.exists_alarm rests waiting
    exact ⟨alarm, List.mem_flatMap.2 ⟨task, here, isRunning⟩, rests.ahead alarm isRunning⟩

/-! ### The registry is asked -/

/-- The registry is asked for the next patch. -/
theorem ask (settling : w.Settling n) {answer : Answer} (asked : w.drain = (answer, w')) :
    ∃ m, m + answer.items.length ≤ n ∧ w'.Settling m := by
  obtain ⟨⟨a, tasks, bound⟩, waits, h, reached⟩ := settling
  have split := ready_of_drain asked
  obtain ⟨-, -, sameTasks⟩ := registry_of_drain asked
  obtain ⟨now, -, -, sameQueue⟩ := drain_apart asked
  rw [split, List.length_append] at bound
  refine ⟨a + w.registry.tasks.length + w'.registry.ready.length, by omega, ⟨a, ?_, ?_⟩, ?_, _,
    reached.ask asked⟩
  · rwa [sameTasks, now]
  · rw [sameTasks]
  · rwa [sameTasks, sameQueue, now]

/-- The registry is given up. -/
theorem close (settling : w.Settling n) : w.close.Settling n := by
  obtain ⟨-, -, h, reached⟩ := settling
  exact ⟨⟨0, trivial, Nat.zero_le n⟩, fun task here => absurd here List.not_mem_nil, _, reached.close⟩

end Settling

end EventLoop

end ProgressiveHtml
