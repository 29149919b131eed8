import Mathlib.Data.List.Forall2
import ProgressiveHtml.Proofs.Document.Watching
import ProgressiveHtml.Proofs.EventLoop.Company

namespace ProgressiveHtml

/-!
# Event loop — late fragments in company

The main task and the late fragments of a registry share an event loop.  Each fragment begins at the
instant at which it is taken in and comes to its end when it would if it had been alone since.

* `EventLoop.TakesIn` — what a rendering that is asked does to the registry;
* `EventLoop.Unnoticed` — what no content and no fragment notices;
* `Crew` — the renderings of the main task and the fragments on their way, in company;
* `Crew.takesIn`, `Crew.turn`, `Crew.pass` — what happens to them.
-/

open Rendering

namespace EventLoop

/-! ### Taking in -/

/-- Fragments are taken in at one instant, behind all others; nothing else happens to the registry. -/
structure TakesIn (w : EventLoop) (new : List FragmentTask) (w' : EventLoop) : Prop where
  now : w'.now = w.now
  tasks : w'.registry.tasks = w.registry.tasks ++ new
  queue : w'.registry.queue = w.registry.queue ++ new.map (·.slot)
  ready : w'.registry.ready = w.registry.ready
  closed : w'.registry.closed = w.registry.closed
  next : w.registry.next ≤ w'.registry.next
  /-- Their slots are new. -/
  slots : (new.map (·.slot)).Sublist
    (List.range' w.registry.next (w'.registry.next - w.registry.next))

variable {w w' w'' : EventLoop} {new later : List FragmentTask}

namespace TakesIn

theorem refl (w : EventLoop) : w.TakesIn [] w where
  now := rfl
  tasks := (List.append_nil _).symm
  queue := (List.append_nil _).symm
  ready := rfl
  closed := rfl
  next := Nat.le_refl _
  slots := List.nil_sublist _

theorem trans (first : w.TakesIn new w') (second : w'.TakesIn later w'') :
    w.TakesIn (new ++ later) w'' where
  now := second.now.trans first.now
  tasks := by rw [second.tasks, first.tasks, List.append_assoc]
  queue := by rw [second.queue, first.queue, List.map_append, List.append_assoc]
  ready := second.ready.trans first.ready
  closed := second.closed.trans first.closed
  next := Nat.le_trans first.next second.next
  slots := by
    have both := first.slots.append second.slots
    obtain ⟨some, isNext⟩ := Nat.exists_eq_add_of_le first.next
    obtain ⟨more, isLast⟩ := Nat.exists_eq_add_of_le second.next
    rw [isLast, isNext] at both
    simp only [Nat.add_sub_cancel_left, List.range'_append_1] at both
    rwa [List.map_append, isLast, isNext, Nat.add_assoc, Nat.add_sub_cancel_left]

/-- The slots of the new fragments are new, and given out by now. -/
theorem slot_bounds (takesIn : w.TakesIn new w') {task : FragmentTask} (isNew : task ∈ new) :
    w.registry.next ≤ task.slot ∧ task.slot < w'.registry.next := by
  have member := takesIn.slots.subset (List.mem_map_of_mem isNew)
  have next := takesIn.next
  rw [List.mem_range'_1] at member
  omega

/-- A slot that was given out before is not among the new ones. -/
theorem not_mem (takesIn : w.TakesIn new w') {slot : Nat} (old : slot < w.registry.next) :
    slot ∉ new.map (·.slot) := by
  rintro isNew
  obtain ⟨task, here, rfl⟩ := List.mem_map.1 isNew
  exact Nat.not_lt_of_le (takesIn.slot_bounds here).1 old

/-- No fragment is woken twice. -/
theorem nodup (takesIn : w.TakesIn new w') {queue : List Nat} (once : queue.Nodup)
    (known : ∀ slot ∈ queue, slot < w.registry.next) : (queue ++ new.map (·.slot)).Nodup := by
  refine List.nodup_append.2 ⟨once, takesIn.slots.nodup List.nodup_range', ?_⟩
  rintro slot isOld _ isNew rfl
  exact takesIn.not_mem (known slot isOld) isNew

/-- Only fragments with slots are woken. -/
theorem known (takesIn : w.TakesIn new w') {queue : List Nat}
    (known : ∀ slot ∈ queue, slot < w.registry.next) :
    ∀ slot ∈ queue ++ new.map (·.slot), slot < w'.registry.next := by
  intro slot member
  obtain old | isNew := List.mem_append.1 member
  · exact Nat.lt_of_lt_of_le (known slot old) takesIn.next
  · obtain ⟨task, here, rfl⟩ := List.mem_map.1 isNew
    exact (takesIn.slot_bounds here).2

/-- The fragments that have been taken in since are the new ones, whatever became of the others. -/
theorem newcomers_eq (takesIn : w.TakesIn new w') {v : EventLoop} {old : List FragmentTask}
    (tasks : v.registry.tasks = old ++ new) (known : ∀ task ∈ old, task.slot < w.registry.next) :
    w.newcomers v = new := by
  have none : old.filter (w.registry.next ≤ ·.slot) = [] :=
    List.filter_eq_nil_iff.2 fun task here => by simpa using known task here
  have all : new.filter (w.registry.next ≤ ·.slot) = new :=
    List.filter_eq_self.2 fun task here => by simpa using (takesIn.slot_bounds here).1
  rw [newcomers, tasks, List.filter_append, none, all, List.nil_append]

end TakesIn

/-! ### What nobody notices -/

/-- Something happens that does not concern contents, and no fragment on its way. -/
structure Unnoticed (w w' : EventLoop) : Prop where
  now : w'.now = w.now
  cells : w'.cells = w.cells
  used : w'.used = w.used
  tasks : w'.registry.tasks = w.registry.tasks
  next : w'.registry.next = w.registry.next
  fewer : w'.registry.queue.Sublist w.registry.queue
  /-- Fragments that were woken stay so. -/
  woken : ∀ task ∈ w.registry.tasks, task.slot ∈ w.registry.queue ↔ task.slot ∈ w'.registry.queue

namespace Unnoticed

theorem refl (w : EventLoop) : w.Unnoticed w where
  now := rfl
  cells := rfl
  used := rfl
  tasks := rfl
  next := rfl
  fewer := .refl _
  woken _ _ := Iff.rfl

theorem trans (first : w.Unnoticed w') (second : w'.Unnoticed w'') : w.Unnoticed w'' where
  now := second.now.trans first.now
  cells := second.cells.trans first.cells
  used := second.used.trans first.used
  tasks := second.tasks.trans first.tasks
  next := second.next.trans first.next
  fewer := second.fewer.trans first.fewer
  woken task here := (first.woken task here).trans (second.woken task (first.tasks ▸ here))

/-- Something happens that has nothing to do with the registry either. -/
theorem aside (now : w'.now = w.now) (cells : w'.cells = w.cells) (used : w'.used = w.used)
    (registry : w'.registry = w.registry) : w.Unnoticed w' where
  now := now
  cells := cells
  used := used
  tasks := by rw [registry]
  next := by rw [registry]
  fewer := by rw [registry]
  woken _ _ := by rw [registry]

/-- Nobody hands in anything. -/
theorem newcomers_eq (unnoticed : w.Unnoticed w')
    (known : ∀ task ∈ w.registry.tasks, task.slot < w.registry.next) : w.newcomers w' = [] :=
  (TakesIn.refl w).newcomers_eq (by rw [unnoticed.tasks, List.append_nil]) known

end Unnoticed

/-- Asking for a patch is noticed by no fragment. -/
theorem drain_unnoticed {answer : Answer} (asked : w.drain = (answer, w')) : w.Unnoticed w' := by
  obtain ⟨now, cells, used, queue⟩ := drain_apart asked
  obtain ⟨-, next, tasks⟩ := registry_of_drain asked
  exact ⟨now, cells, used, tasks, next, queue ▸ .refl _, fun _ _ => by rw [queue]⟩

/-- When nothing is on its way, nobody notices that the registry is given up. -/
theorem close_unnoticed (idle : w.registry.tasks = []) : w.Unnoticed w.close where
  now := rfl
  cells := rfl
  used := rfl
  tasks := idle.symm
  next := rfl
  fewer := List.nil_sublist _
  woken task here := by simp [idle] at here

/-- A fragment that is not on its way any more has its turn. -/
theorem woken_unnoticed {slot : Nat} {rest : List Nat} (queue : w.registry.queue = slot :: rest)
    (gone : w.registry.task? slot = none) : w.Unnoticed (w.woken rest) where
  now := rfl
  cells := rfl
  used := rfl
  tasks := rfl
  next := rfl
  fewer := queue ▸ .cons _ (.refl _)
  woken task here := by
    have other : task.slot ≠ slot := by
      rintro rfl
      simp only [Registry.task?, Option.map_eq_none_iff, List.find?_eq_none] at gone
      exact gone task here (by simp)
    simp [queue, woken, other]

end EventLoop

/-- A rendering that is asked only hands in fragments. -/
theorem Rendering.poll_takesIn (r : Rendering) (w : EventLoop) :
    ∃ new, w.TakesIn new (r.poll w).2 := by
  obtain ⟨handed, steps⟩ := r.poll_steps w
  obtain ⟨next, numbers⟩ := steps.numbered
  obtain ⟨given, isGiven, tasks, queue, ready⟩ := steps.taken
  refine ⟨given.map (·.task), r.poll_now w, tasks, ?_, ready, steps.closed, by omega, ?_⟩
  · rw [queue, List.map_map]
    rfl
  · rw [next, Nat.add_sub_cancel_left, ← numbers]
    obtain rfl | rfl := isGiven
    · exact List.nil_sublist _
    · rw [List.map_map]
      exact List.Sublist.refl _

namespace EventLoop

/-- The registry after the turn of a fragment: the fragments before and behind it are as they were, and it
    is kept unless it is over. -/
structure Turned (w : EventLoop) (slot : Nat) (rest : List Nat) (work : Rendering)
    (before after kept new : List FragmentTask) : Prop where
  split : w.registry.tasks = before ++ ⟨slot, work⟩ :: after
  takesIn : (w.woken rest).TakesIn new (work.poll (w.woken rest)).2
  tasks : w.runNext.registry.tasks = before ++ (kept ++ (after ++ new))
  queue : w.runNext.registry.queue = rest ++ new.map (·.slot)
  isKept : kept = [⟨slot, (work.poll (w.woken rest)).1⟩] ∧ (work.poll (w.woken rest)).1.isOver = false ∨
    kept = [] ∧ (work.poll (w.woken rest)).1.isOver
  others : ∀ task ∈ before ++ after, task.slot ≠ slot
  numbered : ∀ task ∈ w.registry.tasks, task.slot < w.registry.next

/-- The turn of a fragment on its way, where each has a slot of its own. -/
theorem exists_turned {w : EventLoop} (once : (w.registry.tasks.map (·.slot)).Nodup)
    (numbered : ∀ task ∈ w.registry.tasks, task.slot < w.registry.next) {slot : Nat} {rest : List Nat}
    {work : Rendering} (queue : w.registry.queue = slot :: rest)
    (found : w.registry.task? slot = some work) :
    ∃ before after kept new, w.Turned slot rest work before after kept new := by
  obtain ⟨before, after, split⟩ := List.append_of_mem (Registry.mem_of_task? found)
  obtain ⟨new, takesIn⟩ := work.poll_takesIn (w.woken rest)
  have apart : ((work.poll (w.woken rest)).2.registry.tasks.map (·.slot)).Nodup := by
    rw [takesIn.tasks, List.map_append]
    exact takesIn.nodup once (List.forall_mem_map.2 numbered)
  obtain ⟨others, kept, tasks, isKept⟩ := tasks_afterTurn split apart takesIn.tasks
  refine ⟨before, after, kept, new, split, takesIn, ?_, ?_, isKept, others, numbered⟩
  · rw [runNext_of_some queue found, tasks]
  · rw [runNext_of_some queue found, afterTurn, Registry.conclude_queue, takesIn.queue]
    rfl

namespace Turned

variable {w : EventLoop} {slot : Nat} {rest : List Nat} {work : Rendering}
  {before after kept new : List FragmentTask}

theorem others_subset (turned : w.Turned slot rest work before after kept new) :
    before ++ after ⊆ w.registry.tasks :=
  turned.split ▸ ((List.sublist_cons_self _ after).append_left before).subset

theorem slot_lt (turned : w.Turned slot rest work before after kept new) : slot < w.registry.next :=
  turned.numbered ⟨slot, work⟩ (by simp [turned.split])

/-- The fragment is not woken again. -/
theorem notWoken (turned : w.Turned slot rest work before after kept new) (once : slot ∉ rest) :
    slot ∉ rest ++ new.map (·.slot) := by
  simp only [List.mem_append, not_or]
  exact ⟨once, turned.takesIn.not_mem turned.slot_lt⟩

/-- The others are woken as they were. -/
theorem woken_iff (turned : w.Turned slot rest work before after kept new)
    (queue : w.registry.queue = slot :: rest) : ∀ task ∈ before ++ after,
      task.slot ∈ w.registry.queue ↔ task.slot ∈ rest ++ new.map (·.slot) := by
  intro task there
  have old := turned.takesIn.not_mem (turned.numbered task (turned.others_subset there))
  simp [queue, turned.others task there, old]

theorem newcomers_eq (turned : w.Turned slot rest work before after kept new) :
    w.newcomers w.runNext = new := by
  have tasks : w.runNext.registry.tasks = (before ++ (kept ++ after)) ++ new := by simp [turned.tasks]
  refine turned.takesIn.newcomers_eq tasks ?_
  intro task there
  obtain early | isMine | late := by simpa only [List.mem_append] using there
  · exact turned.numbered task (turned.others_subset (List.mem_append_left _ early))
  · obtain ⟨rfl, -⟩ | ⟨rfl, -⟩ := turned.isKept
    · exact List.mem_singleton.1 isMine ▸ turned.slot_lt
    · exact absurd isMine List.not_mem_nil
  · exact turned.numbered task (turned.others_subset (List.mem_append_right _ late))

/-- The fragment has come to its end, or is kept. -/
theorem listed (turned : w.Turned slot rest work before after kept new)
    (queue : w.registry.queue = slot :: rest) (found : w.registry.task? slot = some work) :
    slot ∈ (History.completions w.turned).map (·.slot) ++ kept.map (·.slot) := by
  obtain ⟨rfl, -⟩ | ⟨rfl, ended⟩ := turned.isKept
  · simp
  · rw [completions_turned, completed?_of_some queue found]
    cases left : (work.poll (w.woken rest)).1 <;> simp_all [Registry.item?, Rendering.isOver]

end Turned

end EventLoop

/-! ### The crew -/

/-- A fragment does what is left of its content.  It can go on exactly when it was woken, and it was
    taken in when it began. -/
structure Member.Does (given : List (Nat × FragmentTask)) (queue : List Nat) (m : Member)
    (task : FragmentTask) : Prop where
  left : task.work = m.left
  standing : m.standing = if task.slot ∈ queue then .ripe else .asleep
  given : (m.start, ⟨task.slot, m.whole⟩) ∈ given

/-- Members are there for fragments. -/
def Member.Do (given : List (Nat × FragmentTask)) (queue : List Nat) (members : List Member)
    (tasks : List FragmentTask) : Prop :=
  List.Forall₂ (Member.Does given queue) members tasks

namespace Member.Do

variable {given more : List (Nat × FragmentTask)} {queue queue' : List Nat}
  {tasks new : List FragmentTask} {members : List Member}

/-- Others are taken in, and other fragments are woken or have had their turn. -/
theorem carry (all : Do given queue members tasks)
    (same : ∀ task ∈ tasks, task.slot ∈ queue ↔ task.slot ∈ queue') :
    Do (given ++ more) queue' members tasks := by
  refine (((List.forall₂_and_left _ _).2 ⟨same, all.flip⟩).imp fun task m ⟨same, does⟩ => ?_).flip
  refine ⟨does.left, ?_, List.mem_append_left _ does.given⟩
  rw [does.standing, if_congr same rfl rfl]

/-- Fragments that are taken in begin, and are woken. -/
theorem begin (now : Nat) (woken : ∀ task ∈ new, task.slot ∈ queue) :
    Do (given ++ new.map (now, ·)) queue (new.map fun task => Member.fresh now task.work) new := by
  refine List.forall₂_map_left_iff.2 (List.forall₂_same.2 fun task here => ⟨rfl, ?_, ?_⟩)
  · rw [if_pos (woken task here)]
    rfl
  · exact List.mem_append_right _ (List.mem_map_of_mem here)

/-- A fragment that has had its turn is kept, unless it is over. -/
theorem kept {w : EventLoop} {m : Member} {slot : Nat} {kept : List FragmentTask}
    (isKept : kept = [⟨slot, m.left⟩] ∧ m.left.isOver = false ∨ kept = [] ∧ m.left.isOver)
    (stands : m.Stands w) (asked : m.standing ≠ .ripe)
    (isGiven : (m.start, ⟨slot, m.whole⟩) ∈ given) (notWoken : slot ∉ queue) :
    ∃ here, here.Sublist [m] ∧ Do given queue here kept := by
  obtain ⟨rfl, waits⟩ | ⟨rfl, -⟩ := isKept
  · refine ⟨[m], .refl _, .cons ⟨rfl, ?_, isGiven⟩ .nil⟩
    have notOver : m.standing ≠ .finished := mt (stands.isOver_iff asked).2 (by simp [waits])
    rw [if_neg notWoken]
    cases standing : m.standing <;> simp_all
  · exact ⟨[], List.nil_sublist _, .nil⟩

end Member.Do

/-- A fragment that came to its end at some time was taken in, came to it when and how it does if it is
    alone since, and has brought the item made of it. -/
structure Completion.Punctual (given : List (Nat × FragmentTask)) (time : Nat) (c : Completion) : Prop where
  item : Registry.item? c.slot c.work = some c.item
  alone : ∃ start content left, (start, ⟨c.slot, content⟩) ∈ given ∧
    content.EndsAlone start left time ∧ left.manner = c.work.manner

/-- Every fragment that came to its end did so in time. -/
def Diary.Punctual (given : List (Nat × FragmentTask)) (h : Diary) : Prop :=
  ∀ entry ∈ h.completions, entry.2.Punctual given entry.1

/-- What happens now is written down. -/
theorem Diary.Punctual.note {given : List (Nat × FragmentTask)} {h : Diary} {now : Nat}
    {new : List Happening} (punctual : h.Punctual given) (more : List (Nat × FragmentTask))
    (ends : ∀ c ∈ History.completions new, c.Punctual given now) :
    (h.note now new).Punctual (given ++ more) := by
  have sofar : ∀ entry ∈ (h.note now new).completions, entry.2.Punctual given entry.1 := by
    rw [Diary.completions_note, List.forall_mem_append]
    exact ⟨punctual, List.forall_mem_map.2 ends⟩
  intro entry member
  obtain ⟨item, start, content, left, isGiven, ends⟩ := sofar entry member
  exact ⟨item, start, content, left, List.mem_append_left _ isGiven, ends⟩

/-- The renderings of the main task and the fragments on their way share an event loop. -/
structure Crew (given : List (Nat × FragmentTask)) (h : Diary) (w : EventLoop)
    (main fragments : List Member) : Prop where
  company : Company w (main ++ fragments)
  does : Member.Do given w.registry.queue fragments w.registry.tasks
  /-- No fragment was woken twice. -/
  once : w.registry.queue.Nodup
  /-- Only fragments with slots were woken. -/
  known : ∀ slot ∈ w.registry.queue, slot < w.registry.next
  punctual : h.Punctual given
  /-- What was taken in has come to its end, or is on its way. -/
  listed : ∀ fragment ∈ given,
    fragment.2.slot ∈ h.completions.map (·.2.slot) ++ w.registry.tasks.map (·.slot)

namespace Crew

variable {given : List (Nat × FragmentTask)} {h : Diary} {w w' : EventLoop}
  {main main' fragments : List Member} {tasks : List FragmentTask} {new : List Happening}

/-- Something happens that nobody notices. -/
theorem unnoticed (crew : Crew given h w main fragments) (unnoticed : w.Unnoticed w')
    (none : History.completions new = []) : Crew given (h.note w.now new) w' main fragments where
  company := crew.company.congr unnoticed.now unnoticed.cells unnoticed.used
  does := by
    have does : Member.Do (given ++ []) w'.registry.queue fragments w.registry.tasks :=
      crew.does.carry unnoticed.woken
    rwa [List.append_nil, ← unnoticed.tasks] at does
  once := crew.once.sublist unnoticed.fewer
  known slot woken := unnoticed.next ▸ crew.known slot (unnoticed.fewer.subset woken)
  punctual := by simpa using crew.punctual.note [] (by simp [none])
  listed := by simpa [none, unnoticed.tasks] using crew.listed

/-- Something happens that nobody notices and nobody writes down. -/
theorem quiet (crew : Crew given h w main fragments) (unnoticed : w.Unnoticed w') :
    Crew given h w' main fragments := by
  have noted : Crew given (h.note w.now []) w' main fragments := crew.unnoticed unnoticed rfl
  simpa [Diary.note] using noted

/-- Some renderings of the main task leave. -/
theorem leave (crew : Crew given h w main fragments) (fewer : main'.Sublist main) :
    Crew given h w main' fragments where
  __ := crew
  company := crew.company.sublist (fewer.append (.refl _))

/-- Fragments are taken in. -/
theorem takesIn (crew : Crew given h w main fragments) (takesIn : w.TakesIn tasks w')
    (slots : ∀ task ∈ w.registry.tasks, task.slot < w.registry.next)
    (company : Company w' (main' ++ (fragments ++ tasks.map fun task => Member.fresh w.now task.work)))
    (none : History.completions new = []) :
    Crew (given ++ tasks.map (w.now, ·)) (h.note w.now new) w' main'
      (fragments ++ tasks.map fun task => Member.fresh w.now task.work) where
  company := company
  does := by
    rw [takesIn.tasks, takesIn.queue]
    refine List.rel_append (crew.does.carry fun task here => ?_) ?_
    · simp [takesIn.not_mem (slots task here)]
    · exact Member.Do.begin w.now fun task here =>
        List.mem_append_right _ (List.mem_map_of_mem here)
  once := takesIn.queue ▸ takesIn.nodup crew.once crew.known
  known := takesIn.queue ▸ takesIn.known crew.known
  punctual := crew.punctual.note _ (by simp [none])
  listed := by
    rw [Diary.completions_note, none, List.map_nil, List.append_nil, takesIn.tasks, List.map_append,
      ← List.append_assoc]
    -- What has been given to the crew has been completed, is on its way, or is one of the new tasks.
    intro fragment member
    obtain old | isNew := List.mem_append.1 member
    · exact List.mem_append_left _ (crew.listed fragment old)
    · obtain ⟨task, here, rfl⟩ := List.mem_map.1 isNew
      exact List.mem_append_right _ (List.mem_map_of_mem here)

/-! ### Turns -/

/-- A fragment that comes to its end in its turn comes to it as it does if it is alone. -/
theorem punctual_completed {m : Member} {slot : Nat} {rest : List Nat} {names : Pairing}
    {standing : Standing} (queue : w.registry.queue = slot :: rest)
    (found : w.registry.task? slot = some m.left)
    (isDoing : m.Does given w.registry.queue ⟨slot, m.left⟩) (stands : m.Stands w)
    (onward : Member.Stands (m.left.poll (w.woken rest)).2
      { m with names, standing, left := (m.left.poll (w.woken rest)).1 })
    (asked : standing ≠ .ripe) : ∀ c ∈ History.completions w.turned, c.Punctual given w.now := by
  intro c completed
  rw [EventLoop.completions_turned, EventLoop.completed?_of_some queue found, Option.mem_toList,
    Option.map_eq_some_iff] at completed
  obtain ⟨item, isItem, rfl⟩ := completed
  have ended : (m.left.poll (w.woken rest)).1.isOver := by
    cases left : (m.left.poll (w.woken rest)).1 <;> simp_all [Registry.item?, Rendering.isOver]
  have present : (m.left.poll (w.woken rest)).2.now = w.now := m.left.poll_now _
  have isRipe : m.standing = .ripe := by rw [isDoing.standing, if_pos (by simp [queue])]
  have recent : ∀ left time, m.Ends left time → w.now ≤ time := fun _ _ =>
    stands.now_le (by simp [isRipe])
  obtain ⟨left, ends, same⟩ := onward.ends_now ((onward.isOver_iff asked).1 ended)
    (present.symm ▸ recent)
  exact ⟨isItem, m.start, m.whole, left, isDoing.given, present ▸ ends, same⟩

/-- A fragment goes on in its turn. -/
theorem goOn (crew : Crew given h w main fragments) {past : List Happening}
    (books : w.registry.Accounts past) {slot : Nat} {rest : List Nat} {work : Rendering}
    (queue : w.registry.queue = slot :: rest) (found : w.registry.task? slot = some work) :
    ∃ fragments', Crew (given ++ (w.newcomers w.runNext).map (w.now, ·)) (h.note w.now w.turned)
      w.runNext main fragments' := by
  obtain ⟨before, after, kept, new, turned⟩ := EventLoop.exists_turned books.tasks_nodup
    (fun task here => (books.onItsWay here).1) queue found
  have does := crew.does
  rw [turned.split] at does
  obtain ⟨firsts, m, lasts, rfl, doBefore, isDoing, doAfter⟩ := forall₂_middle does
  obtain rfl : work = m.left := isDoing.left
  have once := crew.once
  have known := crew.known
  rw [queue] at once known
  obtain ⟨notAgain, once⟩ := List.nodup_cons.1 once
  replace known := fun other woken => known other (List.mem_cons_of_mem slot woken)
  -- It goes on in company, and is kept unless it is over.
  have company : Company (w.woken rest) ((main ++ firsts) ++ m :: lasts) := by
    rw [List.append_assoc]
    exact crew.company.congr rfl rfl rfl
  obtain ⟨names, standing, new', asked, added, onward⟩ := company.ask
  obtain rfl : new' = new := List.append_cancel_left (added.symm.trans turned.takesIn.tasks)
  have stands := onward.stands { m with names, standing, left := (m.left.poll (w.woken rest)).1 }
    (by simp)
  obtain ⟨here, sublist, doHere⟩ := Member.Do.kept turned.isKept stands asked
    (List.mem_append_left (new'.map (w.now, ·)) isDoing.given) (turned.notWoken notAgain)
  have same := turned.woken_iff queue
  refine ⟨firsts ++ (here ++ (lasts ++ new'.map fun task => Member.fresh w.now task.work)), ?_⟩
  rw [turned.newcomers_eq]
  constructor
  case company =>
    have all := onward.sublist ((sublist.append (.refl _)).append_left (main ++ firsts))
    rw [List.append_assoc] at all
    rw [EventLoop.runNext_of_some queue found]
    exact all.congr rfl rfl rfl
  case does =>
    -- The tasks in front of it, the task itself, those behind it, and those that it has handed in.
    rw [turned.queue, turned.tasks]
    refine List.rel_append ?_ (List.rel_append doHere (List.rel_append ?_ ?_))
    · exact Member.Do.carry doBefore fun task there => same task (List.mem_append_left _ there)
    · exact Member.Do.carry doAfter fun task there => same task (List.mem_append_right _ there)
    · exact Member.Do.begin w.now fun task there =>
        List.mem_append_right _ (List.mem_map_of_mem there)
  case once => exact turned.queue ▸ turned.takesIn.nodup once known
  case known =>
    rw [turned.queue, EventLoop.runNext_of_some queue found, EventLoop.afterTurn,
      Registry.conclude_next]
    exact turned.takesIn.known known
  case punctual =>
    have stood := crew.company.stands m (by simp)
    exact crew.punctual.note _ (punctual_completed queue found isDoing stood stands asked)
  case listed =>
    have mine := turned.listed queue found
    have listed := crew.listed
    simp only [turned.split, turned.tasks, Diary.completions_note, List.map_append, List.map_map,
      List.map_cons, List.mem_append, List.mem_cons] at mine listed ⊢
    rintro fragment (old | isNew)
    · obtain complete | early | rfl | late := listed fragment old
      · exact .inl (.inl complete)
      · exact .inr (.inl early)
      · exact mine.elim (fun completed => .inl (.inr completed)) fun kept => .inr (.inr (.inl kept))
      · exact .inr (.inr (.inr (.inl late)))
    · obtain ⟨task, there, rfl⟩ := List.mem_map.1 isNew
      exact .inr (.inr (.inr (.inr (List.mem_map_of_mem there))))

/-- The fragment that was woken first has its turn. -/
theorem turn (crew : Crew given h w main fragments) {past : List Happening}
    (books : w.registry.Accounts past) :
    ∃ fragments', Crew (given ++ (w.newcomers w.runNext).map (w.now, ·)) (h.note w.now w.turned)
      w.runNext main fragments' := by
  have known : ∀ task ∈ w.registry.tasks, task.slot < w.registry.next := fun task here =>
    (books.onItsWay here).1
  -- In two of three cases nobody goes on, and nobody notices.
  have idle (unnoticed : w.Unnoticed w.runNext) (nobody : w.completed? = none) :
      Crew (given ++ (w.newcomers w.runNext).map (w.now, ·)) (h.note w.now w.turned) w.runNext main
        fragments := by
    rw [unnoticed.newcomers_eq known, List.map_nil, List.append_nil]
    exact crew.unnoticed unnoticed (by simp [nobody])
  cases queue : w.registry.queue with
  | nil =>
    have same : w.Unnoticed w.runNext := by
      rw [show w.runNext = w by simp [EventLoop.runNext, queue]]
      exact .refl w
    exact ⟨fragments, idle same (by simp [EventLoop.completed?, queue])⟩
  | cons slot rest =>
    cases found : w.registry.task? slot with
    | some work => exact crew.goOn books queue found
    | none =>
      have unnoticed := EventLoop.woken_unnoticed queue found
      rw [← EventLoop.runNext_of_none queue found] at unnoticed
      exact ⟨fragments, idle unnoticed (EventLoop.completed?_of_none queue found)⟩

/-! ### Time passes -/

/-- Nothing can go on: time passes until the first sleep ends, or to an earlier instant. -/
theorem pass (crew : Crew given h w main fragments) {past : List Happening}
    (books : w.registry.Accounts past) (idle : w.registry.queue = [])
    (noneRipe : ∀ m ∈ main, m.standing ≠ .ripe) {alarms : List Alarm}
    (listed : ∀ m ∈ main, m.left.alarms ⊆ alarms) {limit : Nat} (ahead : w.now ≤ limit) :
    Crew given h (w.jump alarms limit) (main.map (Member.wake (w.nextInstant alarms limit)))
      (fragments.map (Member.wake (w.nextInstant alarms limit))) := by
  have asleep : ∀ m ∈ fragments, m.standing ≠ .ripe := by
    intro m member
    obtain ⟨task, -, does⟩ := forall₂_mem_left crew.does member
    simp [does.standing, idle]
  have listedToo : ∀ m ∈ fragments, m.left.alarms ⊆ w.registry.alarms := by
    intro m member alarm isRunning
    obtain ⟨task, here, does⟩ := forall₂_mem_left crew.does member
    exact List.mem_flatMap.2 ⟨task, here, does.left ▸ isRunning⟩
  have noneRipe : ∀ m ∈ main ++ fragments, m.standing ≠ .ripe := fun m member =>
    (List.mem_append.1 member).elim (noneRipe m) (asleep m)
  have first : ∀ m ∈ main ++ fragments, ∀ alarm ∈ m.left.alarms,
      w.nextInstant alarms limit ≤ alarm.deadline := by
    intro m member alarm isRunning
    refine w.nextInstant_le limit ?_ ?_
    · exact List.mem_append.2 ((List.mem_append.1 member).imp
        (fun here => listed m here isRunning) (fun here => listedToo m here isRunning))
    · exact (crew.company.stands m member).ahead (noneRipe m member) alarm isRunning
  constructor
  case company =>
    rw [← List.map_append]
    exact crew.company.pass noneRipe (w.now_le_nextInstant alarms ahead) rfl rfl first
  case does =>
    refine List.forall₂_map_left_iff.2 ?_
    refine (((List.forall₂_and_left _ _).2 ⟨fun _ => id, crew.does.flip⟩).imp ?_).flip
    rintro task m ⟨here, does⟩
    -- No other task has this slot, so the slot is due exactly if a sleep of this task is over.
    have isDue : task.slot ∈ w.registry.due (w.nextInstant alarms limit) ↔
        ∃ alarm ∈ m.left.alarms, alarm.deadline ≤ w.nextInstant alarms limit := by
      rw [Registry.mem_due_iff, ← does.left]
      refine ⟨?_, fun ended => ⟨task, here, rfl, ended⟩⟩
      rintro ⟨other, there, same, ended⟩
      exact List.inj_on_of_nodup_map books.tasks_nodup there here same ▸ ended
    refine ⟨by rw [Member.wake_left, does.left], ?_, ?_⟩
    · rw [Member.wake_standing, does.standing, idle, if_neg List.not_mem_nil]
      refine if_congr (Iff.trans ?_ isDue.symm) rfl rfl
      simp
    · rw [Member.wake_start, Member.wake_whole]
      exact does.given
  case once => exact Registry.due_nodup books.tasks_nodup _
  case known =>
    intro slot isDue
    obtain ⟨task, here, rfl, -⟩ := Registry.mem_due_iff.1 isDue
    exact (books.onItsWay here).1
  case punctual => exact crew.punctual
  case listed => exact crew.listed

end Crew

end ProgressiveHtml
