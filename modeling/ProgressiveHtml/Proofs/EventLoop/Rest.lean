import Mathlib.Logic.Hydra
import ProgressiveHtml.Proofs.EventLoop.Crew
import ProgressiveHtml.Proofs.EventLoop.Racing

namespace ProgressiveHtml

/-!
# Event loop — the queue comes to rest

Whatever the late fragments do, at one instant only finitely many turns are taken: a fragment that has had
its turn waits, and what it has handed in meanwhile is a part of it.

* `Rendering.HandedIn`, `Rendering.wellFounded_handedIn` — what a rendering may hand in;
* `EventLoop.Orderly` — fragments have slots of their own, and those wait that were not woken;
* `EventLoop.Orderly.runNext`, `EventLoop.Orderly.jump` — turns, and time that passes;
* `EventLoop.Orderly.exists_rest` — after enough turns nobody is woken any more.
-/

namespace Rendering

/-! ### What is handed in -/

/-- What the rendering may hand in, at some time and under some slot. -/
inductive HandedIn (content : Rendering) : Rendering → Prop
  | here {fragment next : Nat → Rendering} {slot : Nat} (same : fragment slot = content) :
      HandedIn content (.register fragment next)
  | register {fragment next : Nat → Rendering} (slot : Nat) (later : HandedIn content (next slot)) :
      HandedIn content (.register fragment next)
  | note {event : Event} {next : Rendering} (later : HandedIn content next) :
      HandedIn content (.note event next)
  | claim {cell : Nat} {next : Rendering} (later : HandedIn content next) :
      HandedIn content (.claim cell next)
  | number {size : Nat} {next : Nat → Rendering} (first : Nat) (later : HandedIn content (next first)) :
      HandedIn content (.number size next)
  | outstanding {next : Nat → Rendering} (count : Nat) (later : HandedIn content (next count)) :
      HandedIn content (.outstanding next)
  | wait {pace : Pace} {next : Rendering} (later : HandedIn content next) :
      HandedIn content (.wait pace next)
  | inTime {r : Race} {inTime : Rendering} {late : Pace → Rendering} (later : HandedIn content inTime) :
      HandedIn content (.race r inTime late)
  | late {r : Race} {inTime : Rendering} {late : Pace → Rendering} (pace : Pace)
      (later : HandedIn content (late pace)) : HandedIn content (.race r inTime late)
  | part {part : Rendering} {parts : List Rendering} {next : List String → Rendering}
      (member : part ∈ parts) (inside : HandedIn content part) : HandedIn content (.join parts next)
  | join {parts : List Rendering} {next : List String → Rendering} (texts : List String)
      (later : HandedIn content (next texts)) : HandedIn content (.join parts next)
  | body {body : Rendering} {next : Except RenderError String → Rendering}
      (inside : HandedIn content body) : HandedIn content (.attempt body next)
  | attempt {body : Rendering} {next : Except RenderError String → Rendering}
      (result : Except RenderError String) (later : HandedIn content (next result)) :
      HandedIn content (.attempt body next)

/-- What is handed in hands in only parts of itself. -/
theorem acc_handedIn (r : Rendering) : ∀ content, HandedIn content r → Acc HandedIn content := by
  induction r using Rendering.rec (motive_2 := fun parts => ∀ part ∈ parts, ∀ content,
    HandedIn content part → Acc HandedIn content) with
  | done | failed | panicked => nofun
  | note _ _ ih =>
    intro content handed
    cases handed with
    | note later => exact ih content later
  | claim _ _ ih =>
    intro content handed
    cases handed with
    | claim later => exact ih content later
  | number _ _ ih =>
    intro content handed
    cases handed with
    | number first later => exact ih first content later
  | outstanding _ ih =>
    intro content handed
    cases handed with
    | outstanding count later => exact ih count content later
  | register _ _ ihContent ih =>
    intro content handed
    cases handed with
    | here same =>
      subst same
      exact ⟨_, ihContent _⟩
    | register slot later => exact ih slot content later
  | wait _ _ ih =>
    intro content handed
    cases handed with
    | wait later => exact ih content later
  | race _ _ _ ihInTime ihLate =>
    intro content handed
    cases handed with
    | inTime later => exact ihInTime content later
    | late pace later => exact ihLate pace content later
  | join _ _ ihParts ih =>
    intro content handed
    cases handed with
    | part member inside => exact ihParts _ member content inside
    | join texts later => exact ih texts content later
  | attempt _ _ ihBody ih =>
    intro content handed
    cases handed with
    | body inside => exact ihBody content inside
    | attempt result later => exact ih result content later
  | nil _ none => cases none
  | cons _ _ first others part member content handed =>
    obtain rfl | later := List.mem_cons.1 member
    · exact first content handed
    · exact others part later content handed

theorem wellFounded_handedIn : WellFounded HandedIn :=
  ⟨fun r => ⟨r, r.acc_handedIn⟩⟩

/-- After a step nothing is handed in but what might have been before. -/
theorem Step.handedIn {r r' : Rendering} {w w' : EventLoop} {handed : List Registration}
    (step : Step r w handed r' w') :
    (∀ given ∈ handed, (given.content given.slot).HandedIn r) ∧
      ∀ content, HandedIn content r' → HandedIn content r := by
  induction step with
  | register content next w =>
    exact ⟨fun given isGiven => by
      obtain rfl := List.mem_singleton.1 isGiven
      exact .here rfl, fun _ later => .register _ later⟩
  | note => exact ⟨nofun, fun _ later => .note later⟩
  | claim => exact ⟨nofun, fun _ later => .claim later⟩
  | refuse | failPart | panicPart | panicBody => exact ⟨nofun, nofun⟩
  | number => exact ⟨nofun, fun _ later => .number _ later⟩
  | outstanding => exact ⟨nofun, fun _ later => .outstanding _ later⟩
  | wait =>
    refine ⟨nofun, fun _ handed => ?_⟩
    cases handed with
    | wait later => exact .wait later
  | settle => exact ⟨nofun, fun _ later => .wait later⟩
  | race =>
    refine ⟨nofun, fun _ handed => ?_⟩
    cases handed with
    | inTime later => exact .inTime later
    | late pace later => exact .late pace later
  | inTime => exact ⟨nofun, fun _ later => .inTime later⟩
  | late => exact ⟨nofun, fun _ later => .late _ later⟩
  | @part part part' _ _ _ _ before after next ih =>
    have there : part ∈ before ++ part :: after := List.mem_append_right _ List.mem_cons_self
    refine ⟨fun given isGiven => .part there (ih.1 given isGiven), fun content handed => ?_⟩
    cases handed with
    | part member inside =>
      obtain early | rfl | late := by simpa only [List.mem_append, List.mem_cons] using member
      · exact .part (List.mem_append_left _ early) inside
      · exact .part there (ih.2 content inside)
      · exact .part (List.mem_append_right _ (List.mem_cons_of_mem _ late)) inside
    | join texts later => exact .join texts later
  | complete => exact ⟨nofun, fun _ later => .join _ later⟩
  | body _ next ih =>
    refine ⟨fun given isGiven => .body (ih.1 given isGiven), fun content handed => ?_⟩
    cases handed with
    | body inside => exact .body (ih.2 content inside)
    | attempt result later => exact .attempt result later
  | succeed | recover => exact ⟨nofun, fun _ later => .attempt _ later⟩

theorem Steps.handedIn {r r' : Rendering} {w w' : EventLoop} {handed : List Registration}
    (steps : Steps r w handed r' w') : ∀ given ∈ handed, (given.content given.slot).HandedIn r := by
  induction steps with
  | refl => exact nofun
  | head step _ ih =>
    obtain ⟨first, onward⟩ := step.handedIn
    exact List.forall_mem_append.2 ⟨first, fun given isGiven => onward _ (ih given isGiven)⟩

/-- The fragments that a rendering hands in when it is asked. -/
theorem handedIn_poll (r : Rendering) {w : EventLoop} {new : List FragmentTask}
    (tasks : (r.poll w).2.registry.tasks = w.registry.tasks ++ new) : ∀ task ∈ new, task.work.HandedIn r := by
  obtain ⟨handed, steps⟩ := r.poll_steps w
  obtain ⟨given, isGiven, taken, -⟩ := steps.taken
  obtain rfl : given.map (·.task) = new := List.append_cancel_left (taken.symm.trans tasks)
  obtain rfl | rfl := isGiven
  · exact nofun
  · exact List.forall_mem_map.2 steps.handedIn

end Rendering

open Rendering

namespace EventLoop

/-! ### Order -/

/-- The fragments on their way have slots of their own.  Each of them has been woken, not more than once, or
    waits until a sleep ends. -/
structure Orderly (w : EventLoop) : Prop where
  apart : (w.registry.tasks.map (·.slot)).Nodup
  numbered : ∀ task ∈ w.registry.tasks, task.slot < w.registry.next
  once : w.registry.queue.Nodup
  known : ∀ slot ∈ w.registry.queue, slot ∈ w.registry.tasks.map (·.slot)
  waits : ∀ task ∈ w.registry.tasks, task.slot ∈ w.registry.queue ∨
    ∀ alarm ∈ task.work.alarms, w.now < alarm.deadline

/-- With no fragment on its way everything is in order. -/
theorem Alone.orderly {w : EventLoop} (alone : w.Alone) : w.Orderly := by
  obtain ⟨tasks, queue⟩ := alone
  constructor
  case apart => simp [tasks]
  case numbered => simp [tasks]
  case once => simp [queue]
  case known => simp [queue]
  case waits => simp [tasks]

/-- A state in which no fragment is on its way stays one. -/
theorem Alone.unnoticed {w w' : EventLoop} (alone : w.Alone) (aside : w.Unnoticed w') : w'.Alone where
  tasks := aside.tasks.trans alone.tasks
  queue := List.sublist_nil.1 (alone.queue ▸ aside.fewer)

namespace Orderly

variable {w w' : EventLoop}

/-- The fragment with a slot. -/
theorem task?_eq (orderly : w.Orderly) {task : FragmentTask} (here : task ∈ w.registry.tasks) :
    w.registry.task? task.slot = some task.work := by
  have apart := orderly.apart
  unfold Registry.task?
  generalize w.registry.tasks = tasks at here apart
  induction tasks with
  | nil => cases here
  | cons first rest ih =>
    obtain ⟨other, apart⟩ := List.nodup_cons.1 (List.map_cons ▸ apart)
    obtain rfl | here := List.mem_cons.1 here
    · simp
    · have elsewhere : first.slot ≠ task.slot := fun same => other (same ▸ List.mem_map_of_mem here)
      simpa [elsewhere] using ih here apart

theorem lt_next (orderly : w.Orderly) {slot : Nat} (woken : slot ∈ w.registry.queue) :
    slot < w.registry.next := by
  obtain ⟨task, here, rfl⟩ := List.mem_map.1 (orderly.known slot woken)
  exact orderly.numbered task here

/-- Nothing that nobody notices brings disorder. -/
theorem unnoticed (orderly : w.Orderly) (aside : w.Unnoticed w') : w'.Orderly where
  apart := aside.tasks ▸ orderly.apart
  numbered := by
    rw [aside.tasks, aside.next]
    exact orderly.numbered
  once := orderly.once.sublist aside.fewer
  known slot woken := aside.tasks ▸ orderly.known slot (aside.fewer.subset woken)
  waits := by
    rw [aside.tasks, aside.now]
    exact fun task here => (orderly.waits task here).imp_left (aside.woken task here).1

/-- The registry is given up. -/
theorem close (w : EventLoop) : w.close.Orderly :=
  Alone.orderly ⟨rfl, rfl⟩

/-- Fragments are taken in. -/
theorem takesIn (orderly : w.Orderly) {new : List FragmentTask} (takesIn : w.TakesIn new w') :
    w'.Orderly where
  apart := by
    rw [takesIn.tasks, List.map_append]
    exact takesIn.nodup orderly.apart (List.forall_mem_map.2 orderly.numbered)
  numbered := by
    rw [takesIn.tasks]
    exact List.forall_mem_append.2
      ⟨fun task here => Nat.lt_of_lt_of_le (orderly.numbered task here) takesIn.next,
        fun _ isNew => (takesIn.slot_bounds isNew).2⟩
  once := by
    rw [takesIn.queue]
    exact takesIn.nodup orderly.once fun _ => orderly.lt_next
  known := by
    rw [takesIn.queue, takesIn.tasks, List.map_append]
    exact List.forall_mem_append.2 ⟨fun slot woken => List.mem_append_left _ (orderly.known slot woken),
      fun slot isNew => List.mem_append_right _ isNew⟩
  waits := by
    rw [takesIn.queue, takesIn.tasks, takesIn.now]
    exact List.forall_mem_append.2 ⟨fun task here => (orderly.waits task here).imp_left
      (List.mem_append_left _), fun task isNew => .inl (List.mem_append_right _ (List.mem_map_of_mem isNew))⟩

theorem poll (orderly : w.Orderly) (r : Rendering) : (r.poll w).2.Orderly := by
  obtain ⟨new, takesIn⟩ := r.poll_takesIn w
  exact orderly.takesIn takesIn

/-- The turn of the fragment that was woken first. -/
theorem exists_turned (orderly : w.Orderly) {slot : Nat} {rest : List Nat}
    (queue : w.registry.queue = slot :: rest) :
    ∃ work before after kept new, w.Turned slot rest work before after kept new := by
  obtain ⟨task, here, rfl⟩ := List.mem_map.1 (orderly.known slot (queue ▸ List.mem_cons_self))
  exact ⟨task.work, EventLoop.exists_turned orderly.apart orderly.numbered queue (orderly.task?_eq here)⟩

/-- The fragment whose turn it is. -/
theorem task?_turned (orderly : w.Orderly) {slot : Nat} {rest : List Nat} {work : Rendering}
    {before after kept new : List FragmentTask} (turned : w.Turned slot rest work before after kept new) :
    w.registry.task? slot = some work := by
  have here : (⟨slot, work⟩ : FragmentTask) ∈ w.registry.tasks := by simp [turned.split]
  exact orderly.task?_eq here

/-- Fragments that come up later stay where they are. -/
theorem mem_others (orderly : w.Orderly) {slot other : Nat} {rest : List Nat} {work : Rendering}
    {before after kept new : List FragmentTask} (queue : w.registry.queue = slot :: rest)
    (turned : w.Turned slot rest work before after kept new) (later : other ∈ rest) :
    ∃ task ∈ before ++ after, task.slot = other := by
  obtain ⟨task, here, rfl⟩ := List.mem_map.1 (orderly.known other (queue ▸ List.mem_cons_of_mem _ later))
  have apart : task.slot ≠ slot := by
    rintro rfl
    exact (List.nodup_cons.1 (queue ▸ orderly.once)).1 later
  rw [turned.split] at here
  refine ⟨task, ?_, rfl⟩
  obtain early | rfl | late := by simpa only [List.mem_append, List.mem_cons] using here
  · exact List.mem_append_left _ early
  · exact absurd rfl apart
  · exact List.mem_append_right _ late

theorem turned (orderly : w.Orderly) {slot : Nat} {rest : List Nat} {work : Rendering}
    {before after kept new : List FragmentTask} (queue : w.registry.queue = slot :: rest)
    (turned : w.Turned slot rest work before after kept new) : w.runNext.Orderly := by
  have once := List.nodup_cons.1 (queue ▸ orderly.once)
  have slots : ((before ++ (kept ++ (after ++ new))).map (·.slot)).Sublist
      (w.registry.tasks.map (·.slot) ++ new.map (·.slot)) := by
    rw [turned.split]
    simp only [List.map_append, List.map_cons, List.append_assoc, List.cons_append]
    refine (List.Sublist.refl _).append ?_
    obtain ⟨rfl, -⟩ | ⟨rfl, -⟩ := turned.isKept
    · exact .refl _
    · exact .cons _ (.refl _)
  have apart := turned.takesIn.nodup orderly.apart (List.forall_mem_map.2 orderly.numbered)
  have now : w.runNext.now = w.now := w.runNext_now
  have found : w.registry.task? slot = some work := orderly.task?_turned turned
  have next : w.runNext.registry.next = (work.poll (w.woken rest)).2.registry.next := by
    rw [runNext_of_some queue found, afterTurn, Registry.conclude_next]
  constructor
  case apart => exact turned.tasks ▸ apart.sublist slots
  case numbered =>
    rw [turned.tasks, next]
    intro task here
    have listed := slots.subset (List.mem_map_of_mem here)
    exact turned.takesIn.known (List.forall_mem_map.2 orderly.numbered) task.slot listed
  case once =>
    rw [turned.queue]
    exact turned.takesIn.nodup once.2 fun other later =>
      orderly.lt_next (queue ▸ List.mem_cons_of_mem _ later)
  case known =>
    rw [turned.queue, turned.tasks]
    refine List.forall_mem_append.2 ⟨fun other later => ?_, fun other isNew => ?_⟩
    · obtain ⟨task, here, rfl⟩ := orderly.mem_others queue turned later
      refine List.mem_map_of_mem ?_
      obtain early | late := List.mem_append.1 here
      · exact List.mem_append_left _ early
      · exact List.mem_append_right _ (List.mem_append_right _ (List.mem_append_left _ late))
    · simp only [List.map_append, List.mem_append, isNew, or_true]
  case waits =>
    rw [turned.queue, turned.tasks, now]
    have others : ∀ task ∈ before ++ after, task.slot ∈ rest ++ new.map (·.slot) ∨
        ∀ alarm ∈ task.work.alarms, w.now < alarm.deadline := fun task here =>
      (orderly.waits task (turned.others_subset here)).imp_left (turned.woken_iff queue task here).1
    rw [List.forall_mem_append] at others
    refine List.forall_mem_append.2 ⟨others.1, List.forall_mem_append.2 ⟨fun task isMine => ?_,
      List.forall_mem_append.2 ⟨others.2, fun task isNew =>
        .inl (List.mem_append_right _ (List.mem_map_of_mem isNew))⟩⟩⟩
    -- What is left of the fragment whose turn it was waits.
    obtain ⟨rfl, -⟩ | ⟨rfl, -⟩ := turned.isKept
    · obtain rfl := List.mem_singleton.1 isMine
      exact .inr (work.rests_poll (w := w.woken rest) rfl).ahead
    · cases isMine

/-- The fragment that was woken first has its turn. -/
theorem runNext (orderly : w.Orderly) : w.runNext.Orderly := by
  rcases queue : w.registry.queue with _ | ⟨slot, rest⟩
  · have idle : w.runNext = w := by simp [EventLoop.runNext, queue]
    rwa [idle]
  · obtain ⟨work, before, after, kept, new, turned⟩ := orderly.exists_turned queue
    exact orderly.turned queue turned

theorem runQueue (orderly : w.Orderly) (turns : Nat) : (w.runQueue turns).Orderly :=
  runQueue_keeps turns orderly runNext

/-- Time passes. -/
theorem jump (orderly : w.Orderly) (alarms : List Alarm) (limit : Nat) : (w.jump alarms limit).Orderly where
  apart := orderly.apart
  numbered := orderly.numbered
  once := Registry.due_nodup orderly.apart _
  known slot woken := by
    obtain ⟨task, here, rfl, -⟩ := Registry.mem_due_iff.1 woken
    exact List.mem_map_of_mem here
  waits task here := by
    refine or_iff_not_imp_left.2 fun notDue alarm isRunning => ?_
    exact Nat.lt_of_not_le fun ended => notDue (Registry.mem_due here isRunning ended)

/-- When nobody has been woken, no fragment is woken before the first of their sleeps has ended. -/
theorem jump_eq (orderly : w.Orderly) (idle : w.registry.queue = []) {alarms : List Alarm} {limit : Nat}
    (ahead : ∀ alarm ∈ w.registry.alarms, w.now < alarm.deadline →
      w.nextInstant alarms limit < alarm.deadline) :
    w.jump alarms limit = w.movedTo (w.nextInstant alarms limit) := by
  have nobody : w.registry.due (w.nextInstant alarms limit) = [] := by
    refine List.eq_nil_iff_forall_not_mem.2 fun slot isDue => ?_
    obtain ⟨task, here, rfl, alarm, isRunning, ended⟩ := Registry.mem_due_iff.1 isDue
    have waits := (orderly.waits task here).resolve_left (idle ▸ List.not_mem_nil)
    have later := ahead alarm (List.mem_flatMap.2 ⟨task, here, isRunning⟩) (waits alarm isRunning)
    exact absurd ended (Nat.not_le.2 later)
  rw [EventLoop.jump, nobody, ← idle]
  rfl

end Orderly

/-! ### The queue comes to rest -/

/-- The contents of the fragments that have been woken. -/
def ripe (w : EventLoop) : List Rendering :=
  w.registry.queue.filterMap w.registry.task?

/-- Once nobody is woken any more, further turns change nothing. -/
theorem runQueue_of_le {w : EventLoop} {turns more : Nat} (rests : (w.runQueue turns).registry.queue = [])
    (less : turns ≤ more) : w.runQueue more = w.runQueue turns := by
  induction turns generalizing w more with
  | zero =>
    cases more with
    | zero => rfl
    | succ more => simp only [runQueue] at rests ⊢; simp [rests]
  | succ turns ih =>
    obtain ⟨more, rfl⟩ := Nat.exists_eq_succ_of_ne_zero (show more ≠ 0 by omega)
    rw [runQueue] at rests ⊢
    rw [runQueue]
    split
    · rfl
    · rename_i busy
      rw [if_neg busy] at rests
      exact ih rests (Nat.le_of_succ_le_succ less)

namespace Orderly

/-- A turn takes one content away from those that have been woken, and puts in its place only contents that it
    hands in. -/
theorem ripe_runNext {w : EventLoop} (orderly : w.Orderly) (busy : w.registry.queue ≠ []) :
    Relation.CutExpand HandedIn (w.runNext.ripe : Multiset Rendering) w.ripe := by
  obtain ⟨slot, rest, queue⟩ := List.exists_cons_of_ne_nil busy
  obtain ⟨work, before, after, kept, new, turned⟩ := orderly.exists_turned queue
  have later := orderly.turned queue turned
  have found : w.registry.task? slot = some work := orderly.task?_turned turned
  -- Who has been woken besides still waits for a turn, with the same content.
  have others : rest.filterMap w.runNext.registry.task? = rest.filterMap w.registry.task? := by
    refine List.filterMap_congr fun other isLater => ?_
    obtain ⟨task, here, rfl⟩ := orderly.mem_others queue turned isLater
    rw [orderly.task?_eq (turned.others_subset here), later.task?_eq]
    rw [turned.tasks]
    obtain early | late := List.mem_append.1 here
    · exact List.mem_append_left _ early
    · exact List.mem_append_right _ (List.mem_append_right _ (List.mem_append_left _ late))
  have handedIn : (new.map (·.slot)).filterMap w.runNext.registry.task? = new.map (·.work) := by
    rw [List.filterMap_map, ← List.filterMap_eq_map]
    refine List.filterMap_congr fun task isNew => later.task?_eq ?_
    simp [turned.tasks, isNew]
  refine ⟨new.map (·.work), work, ?_, ?_⟩
  · simp only [Multiset.mem_coe]
    exact List.forall_mem_map.2 (work.handedIn_poll turned.takesIn.tasks)
  · have before : w.ripe = work :: rest.filterMap w.registry.task? := by
      rw [ripe, queue, List.filterMap_cons, found]
    rw [before, ripe, turned.queue, List.filterMap_append, others, handedIn, ← Multiset.coe_add,
      ← Multiset.cons_coe, ← Multiset.singleton_add]
    abel

/-- After enough turns nobody is woken any more. -/
theorem exists_rest {w : EventLoop} (orderly : w.Orderly) :
    ∃ turns, (w.runQueue turns).registry.queue = [] := by
  -- By induction on the contents that have been woken: each turn puts only smaller ones in the place of one.
  have descends := wellFounded_handedIn.cutExpand
  induction same : (w.ripe : Multiset Rendering) using descends.induction generalizing w with
  | _ ripe ih =>
    subst same
    by_cases idle : w.registry.queue = []
    · exact ⟨0, idle⟩
    · obtain ⟨turns, rests⟩ := ih _ (orderly.ripe_runNext idle) orderly.runNext rfl
      refine ⟨turns + 1, ?_⟩
      rw [EventLoop.runQueue, if_neg (by simpa using idle)]
      exact rests

end Orderly

end EventLoop

end ProgressiveHtml
