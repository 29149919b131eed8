import Mathlib.Data.List.Zip
import ProgressiveHtml.Proofs.EventLoop.Turn
import ProgressiveHtml.Proofs.Registry.Accounting
import ProgressiveHtml.Proofs.Rendering.KeepsTo

namespace ProgressiveHtml

/-!
# Event loop — the same in another run

Where the late fragments are shared, they go on in the same way in two runs: in the same turns, woken in the
same order and with the same items.  Where they are not, they go on elsewhere.

* `Registry.Same.task?`, `Registry.Same.due_eq` — the same fragments are on their way, and the same are woken;
* `Names.Synced.runNext` — a turn in both runs;
* `Names.Synced.drain`, `Names.Synced.close` — asking for a patch, and giving up;
* `EventLoop.Elsewhere.runNext` — a turn of a fragment that keeps to contents of its own.
-/

open Rendering

/-! ### Sleeps that correspond -/

namespace Pairing.Paced

variable {σ : Pairing} {t t' : Timeline}

/-- Of sleeps that correspond the first ones do. -/
theorem min? (paced : σ.Paced t t') {numbers numbers' : List Nat}
    (paired : List.Forall₂ σ numbers numbers') : Option.Rel σ numbers.min? numbers'.min? := by
  cases paired with
  | nil => exact .none
  | cons first others =>
    rw [List.min?_cons', List.min?_cons']
    refine .some (List.rel_foldl (fun a b before a' b' next => ?_) first others)
    have order := paced.order before next
    by_cases less : a ≤ a'
    · have less' : b ≤ b' := Nat.le_of_not_lt fun greater =>
        absurd ((paced.order next before).2 greater) (Nat.not_lt.2 less)
      rwa [min_eq_left less, min_eq_left less']
    · have less' : ¬b ≤ b' := fun le => less <| Nat.le_of_not_lt fun greater =>
        absurd ((paced.order next before).1 greater) (Nat.not_lt.2 le)
      rwa [min_eq_right (Nat.le_of_not_le less), min_eq_right (Nat.le_of_not_le less')]

/-- What is put in the order of sleeps that correspond comes in the same order. -/
theorem map_mergeSort (paced : σ.Paced t t') {entries entries' : List (Nat × Nat)}
    (same : List.Forall₂ (fun entry entry' => σ entry.1 entry'.1 ∧ entry.2 = entry'.2) entries entries') :
    (entries.mergeSort fun a b => a.1 ≤ b.1).map (·.2) =
      (entries'.mergeSort fun a b => a.1 ≤ b.1).map (·.2) := by
  obtain ⟨size, paired⟩ := List.forall₂_iff_zip.1 same
  -- Both lists are the two sides of one list, which is put in order by either side.
  have ofFirst := List.map_mergeSort (r := fun a b => decide (a.1.1 ≤ b.1.1))
    (s := fun a b => decide (a.1 ≤ b.1)) (f := Prod.fst) (l := entries.zip entries') fun _ _ _ _ => rfl
  have ofSecond := List.map_mergeSort (r := fun a b => decide (a.1.1 ≤ b.1.1))
    (s := fun a b => decide (a.1 ≤ b.1)) (f := Prod.snd) (l := entries.zip entries') (by
      intro a isA b isB
      have order := paced.order (paired isB).1 (paired isA).1
      simp only [decide_eq_decide]
      omega)
  rw [List.map_fst_zip (Nat.le_of_eq size)] at ofFirst
  rw [List.map_snd_zip (Nat.le_of_eq size.symm)] at ofSecond
  rw [← ofFirst, ← ofSecond, List.map_map, List.map_map]
  refine List.map_congr_left fun entry member => ?_
  exact (paired (List.mem_mergeSort.1 member)).2

end Pairing.Paced

/-! ### The same tasks -/

namespace Registry.Same

variable {N : Names} {r r' : Registry}

/-- The fragment with a slot is on its way in both runs or in neither. -/
theorem task? (same : r.Same N r') (slot : Nat) :
    Option.Rel (Rendering.Same true N) (r.task? slot) (r'.task? slot) := by
  have all := same.tasks
  unfold Registry.task?
  generalize r.tasks = tasks, r'.tasks = tasks' at all
  induction all with
  | nil => exact .none
  | @cons task task' _ _ first _ ih =>
    by_cases here : task.slot = slot
    · have there : task'.slot = slot := first.slot.symm.trans here
      simpa [here, there] using Option.Rel.some first.work
    · have elsewhere : task'.slot ≠ slot := first.slot ▸ here
      simpa [here, elsewhere] using ih

/-- The fragments wait for the same sleeps. -/
theorem alarms (same : r.Same N r') : List.Forall₂ (Alarm.Same true N.sleeps) r.alarms r'.alarms := by
  have all := same.tasks
  unfold Registry.alarms
  generalize r.tasks = tasks, r'.tasks = tasks' at all
  induction all with
  | nil => exact .nil
  | cons first _ ih => exact List.rel_append first.work.alarms ih

/-- The same fragments are woken, in the same order. -/
theorem due_eq (same : r.Same N r') {t t' : Timeline} (paced : N.sleeps.Paced t t') (now : Nat) :
    r.due now = r'.due now := by
  refine paced.map_mergeSort (List.rel_filterMap (fun task task' both => ?_) same.tasks)
  have ringing : List.Forall₂ (Alarm.Same true N.sleeps) (task.work.alarms.filter (·.deadline ≤ now))
      (task'.work.alarms.filter (·.deadline ≤ now)) :=
    List.rel_filter (fun alarm alarm' both => by simp only [both.deadline]) both.work.alarms
  have numbers : List.Forall₂ N.sleeps _ _ := List.rel_map (fun alarm alarm' both => both.number rfl)
    ringing
  have listed {a b : Option Nat} (first : Option.Rel N.sleeps a b) :
      Option.Rel (fun entry entry' => N.sleeps entry.1 entry'.1 ∧ entry.2 = entry'.2)
        (a.map (·, task.slot)) (b.map (·, task'.slot)) := by
    cases first with
    | none => exact .none
    | some paired => exact .some ⟨paired, both.slot⟩
  exact listed (paced.min? numbers)

/-- A fragment has got so far in both runs, or it is complete in both. -/
theorem conclude (same : r.Same N r') (slot : Nat) {left left' : Rendering}
    (lefts : left.Same true N left') : (r.conclude slot left).Same N (r'.conclude slot left') := by
  have kept : (r.keep slot left).Same N (r'.keep slot left') := by
    refine { same with tasks := List.rel_map (fun task task' both => ?_) same.tasks }
    rw [← both.slot]
    split
    · exact ⟨rfl, lefts⟩
    · exact both
  unfold Registry.conclude
  obtain ⟨waits, waits'⟩ | ⟨-, ended⟩ := lefts.endsLike
  · rw [item?_of_waits waits, item?_of_waits waits']
    exact kept
  · rw [← ended] at kept ⊢
    cases item? slot left with
    | none => exact kept
    | some item =>
      have others : List.Forall₂ (FragmentTask.Same N) (r.tasks.filter (·.slot != slot))
          (r'.tasks.filter (·.slot != slot)) :=
        List.rel_filter (fun task task' both => by simp only [both.slot]) same.tasks
      exact { same with tasks := others, ready := congrArg (· ++ [item]) same.ready }

/-- The registry is asked for the next patch in both runs. -/
theorem drain (same : r.Same N r') : r.drain.1 = r'.drain.1 ∧ r.drain.2.Same N r'.drain.2 := by
  unfold Registry.drain
  rw [← same.ready, ← same.pending]
  cases r.ready with
  | cons item rest =>
    refine ⟨rfl, ?_⟩
    dsimp only
    exact { same with ready := rfl, pending := rfl }
  | nil =>
    dsimp only
    split <;> exact ⟨rfl, same⟩

/-- The registry is given up in both runs. -/
theorem close (same : r.Same N r') : r.close.Same N r'.close :=
  { same with closed := rfl, tasks := .nil, queue := rfl, ready := rfl }

end Registry.Same

/-- Asking for a patch starts no sleep. -/
theorem EventLoop.sleeps_drain (w : EventLoop) : w.timeline.sleeps ≤ w.drain.2.timeline.sleeps := by
  unfold drain
  split
  · unfold handOut
    split <;> exact Nat.le_refl _
  · exact Nat.le_refl _

/-! ### Turns -/

namespace Names.Synced

variable {shared : Bool} {N : Names} {w w' v v' : EventLoop}

/-- No content is touched, and the registries still hold the same. -/
theorem aside (synced : N.Synced shared w v) (now : w'.now = w.now) (cells : w'.cells = w.cells)
    (used : w'.used = w.used) (sleeps : w.timeline.sleeps ≤ w'.timeline.sleeps) (now' : v'.now = v.now)
    (cells' : v'.cells = v.cells) (used' : v'.used = v.used)
    (sleeps' : v.timeline.sleeps ≤ v'.timeline.sleeps)
    (registry : shared = true → w'.registry.Same N v'.registry) : N.Synced shared w' v' where
  contents := ((synced.contents.congr now cells used).symm.congr now' cells' used').symm
  paced := synced.paced.later (now.trans (synced.paced.now.trans now'.symm)) sleeps sleeps'
  registry := registry

/-- Other fragments come up in turn. -/
theorem woken (synced : N.Synced shared w v) (rest : List Nat) :
    N.Synced shared (w.woken rest) (v.woken rest) :=
  synced.aside rfl rfl rfl (Nat.le_refl _) rfl rfl rfl (Nat.le_refl _) fun isShared =>
    { synced.registry isShared with queue := rfl }

/-- The fragment that was woken first has its turn in both runs. -/
theorem runNext (synced : N.Synced true w v) :
    ∃ N', N.Grows true N' w v w.runNext v.runNext ∧ N'.Synced true w.runNext v.runNext := by
  have queue := (synced.registry rfl).queue
  rcases first : w.registry.queue with _ | ⟨slot, rest⟩ <;> rw [first] at queue
  · have idle : w.runNext = w ∧ v.runNext = v := by simp [EventLoop.runNext, first, ← queue]
    rw [idle.1, idle.2]
    exact ⟨N, .refl N w v, synced⟩
  · have woken := synced.woken rest
    have grows : N.Grows true N w v (w.woken rest) (v.woken rest) :=
      ⟨.refl N, fun _ _ => .inl, Nat.le_refl _, (Bool.noConfusion ·)⟩
    have found := (synced.registry rfl).task? slot
    rcases here : w.registry.task? slot with _ | work <;>
      rcases there : v.registry.task? slot with _ | work' <;> rw [here, there] at found
    case none.none =>
      rw [EventLoop.runNext_of_none first here, EventLoop.runNext_of_none queue.symm there]
      exact ⟨N, grows, woken⟩
    case none.some | some.none => cases found
    case some.some =>
      obtain ⟨same⟩ := found
      obtain ⟨N', onward, synced, left⟩ := same.poll woken
      rw [EventLoop.runNext_of_some first here, EventLoop.runNext_of_some queue.symm there]
      have grown := grows.trans onward
      refine ⟨N', ⟨grown.within, grown.fresh, grown.cells, (Bool.noConfusion ·)⟩, ?_⟩
      exact synced.aside rfl rfl rfl (Nat.le_refl _) rfl rfl rfl (Nat.le_refl _) fun isShared =>
        (synced.registry isShared).conclude slot left

/-! ### Asking for patches -/

/-- The registry is asked for the next patch in both runs. -/
theorem drain (synced : N.Synced true w v) :
    w.drain.1 = v.drain.1 ∧ N.Synced true w.drain.2 v.drain.2 := by
  obtain ⟨answers, registries⟩ := (synced.registry rfl).drain
  obtain ⟨now, cells, used, -⟩ := EventLoop.drain_apart (show w.drain = (w.drain.1, w.drain.2) from rfl)
  obtain ⟨now', cells', used', -⟩ := EventLoop.drain_apart (show v.drain = (v.drain.1, v.drain.2) from rfl)
  rw [w.drain_registry.1, v.drain_registry.1]
  refine ⟨answers, synced.aside now cells used (EventLoop.sleeps_drain w) now' cells' used'
    (EventLoop.sleeps_drain v) fun _ => ?_⟩
  rw [w.drain_registry.2, v.drain_registry.2]
  exact registries

/-- The registry is given up in both runs. -/
theorem close (synced : N.Synced shared w v) : N.Synced shared w.close v.close :=
  synced.aside rfl rfl rfl (Nat.le_refl _) rfl rfl rfl (Nat.le_refl _) fun isShared =>
    (synced.registry isShared).close

end Names.Synced

/-! ### Turns of others -/

/-- A task after the turn of a fragment was there before, or it is the one whose turn it was. -/
theorem Registry.mem_conclude {r : Registry} {slot : Nat} {left : Rendering} {task : FragmentTask}
    (here : task ∈ (r.conclude slot left).tasks) : task ∈ r.tasks ∨ task = ⟨slot, left⟩ := by
  unfold conclude at here
  split at here
  · exact .inl (List.mem_of_mem_filter here)
  · obtain ⟨before, isTask, rfl⟩ := List.mem_map.1 here
    split
    · exact .inr rfl
    · exact .inl isTask

/-- A fragment has its turn that keeps to contents of its own, as all do that are on their way. -/
theorem EventLoop.Elsewhere.runNext {own : Nat → Prop} (w : EventLoop)
    (tasks : ∀ task ∈ w.registry.tasks, task.work.KeepsTo true own) :
    ∃ own', w.Elsewhere true own own' w.runNext ∧
      ∀ task ∈ w.runNext.registry.tasks, task.work.KeepsTo true own' := by
  have woken (rest : List Nat) : w.Elsewhere true own own (w.woken rest) :=
    { (refl own w : w.Elsewhere true own own w) with registry := nofun }
  obtain ⟨same, -⟩ | ⟨slot, rest, -, ⟨-, same, -⟩ | ⟨work, found, -, same⟩⟩ := w.runNext_cases <;>
    rw [same]
  · exact ⟨own, .refl own w, tasks⟩
  · exact ⟨own, woken rest, tasks⟩
  · obtain ⟨own', onward, keeps⟩ := (tasks _ (Registry.mem_of_task? found)).poll (w.woken rest)
    have turn := (woken rest).trans onward
    have keepsAll : ∀ task ∈ (w.afterTurn slot rest work).registry.tasks,
        task.work.KeepsTo true own' := by
      intro task here
      obtain before | rfl := Registry.mem_conclude here
      · exact (onward.tasks task before).elim (fun isTask => (tasks task isTask).mono onward.within) id
      · exact keeps
    exact ⟨own', { turn with registry := nofun, tasks := fun task here => .inr (keepsAll task here) },
      keepsAll⟩

end ProgressiveHtml
