import ProgressiveHtml.Proofs.EventLoop.Background
import ProgressiveHtml.Session
import Mathlib.Data.List.Nodup
import Mathlib.Data.List.Range

namespace ProgressiveHtml

/-!
# Registry — the books of a registry

Many parties work on a registry: code that hands in fragments, the fragments themselves, the
reader and whoever drops it.  In whatever order they do so, the books of the registry agree with
what has happened.

* `EventLoop.Reached` — the states that any order of calls, turns, polls and drops leads to;
* `Registry.Accounts` — what the registry has in common with its history, kept by every step;
* `EventLoop.Reached.pending_eq` — what is outstanding is ready or on its way;
* `EventLoop.Reached.books` — the numbers, the count of the outstanding fragments, and the items;
* `Session.reached_perform` — the states of a session are among those reached.
-/

/-- The item of an answer, if it is one. -/
def Answer.items : Answer → List Item
  | .item got => [got]
  | _ => []

namespace EventLoop

/-- The states of a registry that can be reached from a fresh one, with all that has happened.  The
    steps may come in any order. -/
inductive Reached : List Happening → EventLoop → Prop
  | start {w : EventLoop} (fresh : w.registry = {}) : Reached [] w
  /-- A fragment is handed in from outside. -/
  | handIn {h : List Happening} {w : EventLoop} (reached : Reached h w) (content : Nat → Rendering) :
      Reached (h ++ [.handedIn (w.register content).1 none (!w.registry.closed)])
        (w.register content).2
  /-- A late fragment goes on or ends, or time passes. -/
  | background {h new : List Happening} {w w' : EventLoop} (reached : Reached h w)
      (move : w.Background new w') : Reached (h ++ new) w'
  /-- The reader asks for an item. -/
  | ask {h : List Happening} {w w' : EventLoop} {answer : Answer} (reached : Reached h w)
      (asked : w.drain = (answer, w')) : Reached (h ++ History.reads answer.items) w'
  /-- The reader gives the registry up. -/
  | close {h : List Happening} {w : EventLoop} (reached : Reached h w) : Reached h w.close
  /-- Something happens that does not concern the registry. -/
  | elsewhere {h : List Happening} {w w' : EventLoop} (reached : Reached h w)
      (same : w'.registry = w.registry) : Reached h w'

end EventLoop

/-! ### The books -/

/-- What a registry has in common with its history. -/
structure Registry.Accounts (h : List Happening) (r : Registry) : Prop where
  /-- Slots are numbered in the order of the calls. -/
  slots : History.slots h = List.range r.next
  /-- What was taken in is outstanding or was handed out. -/
  balance : r.pending + (History.yields h).length = (History.accepted h).length
  /-- What was taken in is on its way or complete, each fragment once. -/
  placed : r.closed = false →
    (History.accepted h).Perm ((History.completions h).map (·.slot) ++ r.tasks.map (·.slot))
  /-- Once the registry is closed nothing is on its way any more. -/
  idle : r.closed = true → r.tasks = [] ∧ r.ready = []
  /-- Fragments complete once, and only those that were taken in. -/
  once : ((History.completions h).map (·.slot)).Nodup
  known : (History.completions h).map (·.slot) ⊆ History.accepted h
  /-- Items are what is made of the ends of the fragments. -/
  items : ∀ c ∈ History.completions h, Registry.item? c.slot c.work = some c.item
  /-- The items wait in the order of completion. -/
  order : r.closed = false → (History.completions h).map (·.item) = History.yields h ++ r.ready
  /-- The items are handed out in the order of completion. -/
  handedOut : History.yields h <+: (History.completions h).map (·.item)

namespace Registry

/-- The slots of fragments do not change when one of them goes on. -/
@[simp] theorem keep_slots (r : Registry) (slot : Nat) (work : Rendering) :
    (r.keep slot work).tasks.map (·.slot) = r.tasks.map (·.slot) := by
  simp only [keep, List.map_map]
  apply List.map_congr_left
  intro task _
  by_cases mine : task.slot = slot <;> simp [mine]

/-- A fragment that is found is among those on their way. -/
theorem mem_of_task? {r : Registry} {slot : Nat} {work : Rendering}
    (found : r.task? slot = some work) : ⟨slot, work⟩ ∈ r.tasks := by
  unfold task? at found
  rw [Option.map_eq_some_iff] at found
  obtain ⟨task, found, rfl⟩ := found
  have mine : task.slot = slot := by simpa using List.find?_some found
  exact mine ▸ List.mem_of_find?_eq_some found

/-- The reader is told to stop when nothing is ready and nothing is outstanding. -/
theorem drain_finished_iff (r : Registry) :
    r.drain.1 = .finished ↔ r.ready = [] ∧ r.pending = 0 := by
  unfold drain
  split
  · rename_i ready
    simp [ready]
  · rename_i ready
    by_cases none : r.pending = 0 <;> simp [ready, none]

namespace Accounts

variable {h : List Happening} {r : Registry}

theorem empty : Accounts [] ({} : Registry) where
  slots := rfl
  balance := rfl
  placed _ := .refl _
  idle _ := ⟨rfl, rfl⟩
  once := List.nodup_nil
  known := List.nil_subset _
  items _ found := absurd found List.not_mem_nil
  order _ := rfl
  handedOut := List.prefix_rfl

/-- No slot is taken in twice. -/
theorem accepted_nodup (books : Accounts h r) : (History.accepted h).Nodup :=
  (books.slots ▸ History.accepted_sublist h).nodup List.nodup_range

/-- A registry with fragments on their way is open. -/
theorem open_of_task (books : Accounts h r) {task : FragmentTask} (here : task ∈ r.tasks) :
    r.closed = false := by
  by_contra shut
  rw [(books.idle (by simpa using shut)).1] at here
  exact List.not_mem_nil here

/-- Fragments on their way have slots of their own. -/
theorem tasks_nodup (books : Accounts h r) : (r.tasks.map (·.slot)).Nodup := by
  by_cases idle : r.tasks = []
  · rw [idle]
    exact List.nodup_nil
  · obtain ⟨task, here⟩ := List.exists_mem_of_ne_nil _ idle
    have placed := books.placed (books.open_of_task here)
    exact (List.nodup_append.1 (placed.nodup_iff.1 books.accepted_nodup)).2.1

/-- A fragment on its way has a slot that was given out, and is not complete. -/
theorem onItsWay (books : Accounts h r) {task : FragmentTask} (here : task ∈ r.tasks) :
    task.slot < r.next ∧ ∀ c ∈ History.completions h, c.slot ≠ task.slot := by
  have placed := books.placed (books.open_of_task here)
  have mine : task.slot ∈ r.tasks.map (·.slot) := List.mem_map_of_mem here
  constructor
  · have given := (History.accepted_sublist h).subset
      (placed.symm.subset (List.mem_append_right _ mine))
    rw [books.slots] at given
    exact List.mem_range.1 given
  · intro c complete same
    have apart := (List.nodup_append.1 (placed.nodup_iff.1 books.accepted_nodup)).2.2
    exact apart _ (List.mem_map_of_mem complete) _ mine same

/-- The books when a fragment is handed in. -/
theorem register (books : Accounts h r) (host : Option Nat) (content : Nat → Rendering) :
    Accounts (h ++ History.handIns host (!r.closed) [r.next]) (r.register content) where
  slots := by simp [books.slots, List.range_succ]
  balance := by
    have balance := books.balance
    cases closed : r.closed <;> simp [Registry.register, closed] <;> omega
  placed stillOpen := by
    rw [register_closed] at stillOpen
    have placed := books.placed stillOpen
    simp only [Registry.register, stillOpen, History.accepted_append, History.accepted_handIns,
      History.completions_append, History.completions_handIns, List.append_nil, List.map_append,
      Bool.not_false, if_true, List.map_cons, List.map_nil, Bool.false_eq_true, if_false]
    rw [← List.append_assoc]
    exact placed.append_right _
  idle shut := by
    rw [register_closed] at shut
    simpa [Registry.register, shut] using books.idle shut
  once := by simpa using books.once
  known := by
    simp only [History.completions_append, History.completions_handIns, List.append_nil,
      History.accepted_append]
    exact List.subset_append_of_subset_left _ books.known
  items := by simpa using books.items
  order stillOpen := by
    rw [register_closed] at stillOpen
    simpa using books.order stillOpen
  handedOut := by simpa using books.handedOut

/-- The books when a rendering hands in fragments by its steps. -/
theorem steps {host : Option Nat} {work left : Rendering} {w w' : EventLoop}
    {handed : List Registration} (steps : work.Steps w handed left w')
    (books : Accounts h w.registry) :
    Accounts (h ++ History.handIns host (!w.registry.closed) (handed.map (·.slot))) w'.registry := by
  induction steps generalizing h with
  | refl => simpa using books
  | head step _ ih =>
    rw [List.map_append, History.handIns_append, ← List.append_assoc]
    obtain ⟨rfl, same⟩ | ⟨content, rfl, rfl⟩ := step.effect
    · rw [← same] at books ⊢
      exact ih (by simpa using books)
    · rw [← register_closed _ content]
      have booked := books.register host content
      rw [← register_closed _ content] at booked
      exact ih booked

/-- The books when a fragment has got further. -/
theorem keep (books : Accounts h r) (slot : Nat) (work : Rendering) :
    Accounts h (r.keep slot work) where
  __ := books
  placed stillOpen := by
    rw [keep_slots]
    exact books.placed stillOpen
  idle shut := by simpa [Registry.keep] using books.idle shut

/-- The books when other fragments come up in turn. -/
theorem queue (books : Accounts h r) (queue : List Nat) : Accounts h { r with queue } where
  __ := books

/-- The books when a fragment has come to its end. -/
theorem deliver (books : Accounts h r) {slot : Nat} {work : Rendering} {item : Item}
    (found : r.task? slot = some work) (ended : item? slot work = some item) :
    Accounts (h ++ [.completed ⟨slot, work, item⟩]) (r.deliver slot item) := by
  have here := mem_of_task? found
  have stillOpen := books.open_of_task here
  have placed := books.placed stillOpen
  have nodup := books.tasks_nodup
  obtain ⟨before, after, split⟩ := List.append_of_mem here
  -- The fragment was among those on their way, and nowhere else.
  have others : r.tasks.filter (·.slot != slot) = before ++ after := by
    rw [split] at nodup ⊢
    have apart : ∀ task ∈ before ++ after, task.slot ≠ slot := by
      intro task other same
      have twice := nodup
      simp only [List.map_append, List.map_cons] at twice
      rw [List.nodup_middle, List.nodup_cons, ← List.map_append] at twice
      exact twice.1 (same ▸ List.mem_map_of_mem other)
    rw [List.filter_append, List.filter_cons_of_neg (by simp), ← List.filter_append]
    exact List.filter_eq_self.2 fun task other => by simpa using apart task other
  have moved : (History.accepted h).Perm
      ((History.completions h).map (·.slot) ++ [slot] ++ (before ++ after).map (·.slot)) := by
    refine placed.trans ?_
    rw [split, List.append_assoc]
    refine List.Perm.append_left _ ?_
    simp
  constructor
  case slots => simpa [Registry.deliver] using books.slots
  case balance => simpa [Registry.deliver] using books.balance
  case placed =>
    intro _
    simpa [Registry.deliver, others] using moved
  case idle =>
    intro shut
    simp [Registry.deliver, stillOpen] at shut
  case once =>
    have nodup := moved.nodup_iff.1 books.accepted_nodup
    simpa using (List.nodup_append.1 nodup).1
  case known =>
    intro other complete
    simp only [History.completions_append, History.completions_completed, List.map_append,
      List.map_cons, List.map_nil] at complete
    simpa using moved.symm.subset (List.mem_append_left _ complete)
  case items =>
    intro c complete
    simp only [History.completions_append, History.completions_completed, List.mem_append,
      List.mem_singleton] at complete
    obtain complete | rfl := complete
    · exact books.items c complete
    · exact ended
  case order =>
    intro _
    simp [Registry.deliver, books.order stillOpen]
  case handedOut =>
    simpa using books.handedOut.trans (List.prefix_append _ _)

/-- The books when the reader asks for an item. -/
theorem drain (books : Accounts h r) :
    Accounts (h ++ History.reads r.drain.1.items) r.drain.2 := by
  unfold Registry.drain
  split
  · rename_i item rest ready
    have stillOpen : r.closed = false := by
      by_contra shut
      rw [Bool.not_eq_false] at shut
      simp [(books.idle shut).2] at ready
    have order := books.order stillOpen
    rw [ready] at order
    -- An item that is ready has not been handed out, so its fragment is still counted.
    have counted : (History.yields h).length < (History.accepted h).length := by
      have placed := (books.placed stillOpen).length_eq
      have waiting := congrArg List.length order
      simp at placed waiting
      omega
    have balance := books.balance
    constructor
    case slots => simpa using books.slots
    case balance =>
      simp [Answer.items]
      omega
    case placed => simpa using books.placed
    case idle => simp [stillOpen]
    case once => simpa using books.once
    case known => simpa using books.known
    case items => simpa using books.items
    case order => simpa [Answer.items] using fun _ => order
    case handedOut =>
      refine ⟨rest, ?_⟩
      simpa [Answer.items] using order.symm
  · split <;> simpa [Answer.items] using books

/-- The books when the registry is given up. -/
theorem close (books : Accounts h r) : Accounts h r.close where
  __ := books
  placed stillOpen := by simp [Registry.close] at stillOpen
  idle _ := ⟨rfl, rfl⟩
  order stillOpen := by simp [Registry.close] at stillOpen

end Accounts

end Registry

namespace EventLoop

@[simp] theorem handOut_registry (item : Item) (w : EventLoop) :
    (handOut item w).registry = w.registry := by
  unfold handOut
  split <;> rfl

/-- Asking the registry through the event loop only adds a note. -/
theorem drain_registry (w : EventLoop) :
    w.drain.1 = w.registry.drain.1 ∧ w.drain.2.registry = w.registry.drain.2 := by
  unfold drain
  split <;> rename_i asked <;> simp [asked]

/-- What happens in the background is entered in the books. -/
theorem Background.accounts {h new : List Happening} {w w' : EventLoop} (move : w.Background new w')
    (books : w.registry.Accounts h) : w'.registry.Accounts (h ++ new) := by
  cases move with
  | pass _ queue => simpa using books.queue queue
  | goOn found steps => exact (books.steps steps).keep _ _
  | finish found ended => exact books.deliver found ended

/-- Asking the registry only hands out what is ready. -/
theorem registry_of_drain {w w' : EventLoop} {answer : Answer} (asked : w.drain = (answer, w')) :
    w'.registry.closed = w.registry.closed ∧ w'.registry.next = w.registry.next ∧
      w'.registry.tasks = w.registry.tasks := by
  have same := w.drain_registry.2
  rw [asked] at same
  rw [same, Registry.drain]
  split
  · exact ⟨rfl, rfl, rfl⟩
  · split <;> exact ⟨rfl, rfl, rfl⟩

/-- What the registry hands out was ready, in front of what is left. -/
theorem ready_of_drain {w w' : EventLoop} {answer : Answer} (asked : w.drain = (answer, w')) :
    w.registry.ready = answer.items ++ w'.registry.ready := by
  obtain ⟨answered, left⟩ := w.drain_registry
  rw [asked] at answered left
  dsimp only at answered left
  rw [answered, left]
  unfold Registry.drain
  split
  · assumption
  · rename_i none
    split <;> rw [none] <;> rfl

/-- Asking for an item changes nothing that fragments can notice. -/
theorem drain_apart {w w' : EventLoop} {answer : Answer} (asked : w.drain = (answer, w')) :
    w'.now = w.now ∧ w'.cells = w.cells ∧ w'.used = w.used ∧
      w'.registry.queue = w.registry.queue := by
  have quiet (item : Item) (w : EventLoop) : (handOut item w).now = w.now ∧
      (handOut item w).cells = w.cells ∧ (handOut item w).used = w.used ∧
        (handOut item w).registry.queue = w.registry.queue := by
    unfold handOut
    split <;> exact ⟨rfl, rfl, rfl, rfl⟩
  unfold drain Registry.drain at asked
  split at asked <;> rename_i answered <;> simp only [Prod.mk.injEq] at asked <;>
    obtain ⟨-, rfl⟩ := asked <;> split at answered
  · obtain ⟨-, rfl⟩ := Prod.mk.inj answered
    exact quiet _ _
  · split at answered <;> cases answered
  · obtain ⟨-, rfl⟩ := Prod.mk.inj answered
    exact ⟨rfl, rfl, rfl, rfl⟩
  · split at answered <;> obtain ⟨-, rfl⟩ := Prod.mk.inj answered <;> exact ⟨rfl, rfl, rfl, rfl⟩

/-- A registry that has nothing ready stays as it is. -/
theorem registry_of_drain_waiting {w w' : EventLoop} (asked : w.drain = (.waiting, w')) :
    w'.registry = w.registry := by
  obtain ⟨answer, same⟩ := w.drain_registry
  rw [asked] at answer same
  dsimp only at answer same
  rw [same]
  unfold Registry.drain at answer ⊢
  split at answer
  · cases answer
  · split <;> rfl

namespace Reached

variable {h : List Happening} {w w' : EventLoop}

/-- Every state reached has its books in order. -/
theorem accounts (reached : Reached h w) : w.registry.Accounts h := by
  induction reached with
  | start fresh => exact fresh ▸ .empty
  | handIn _ content books => exact books.register none content
  | background _ move books => exact move.accounts books
  | @ask h w _ _ _ asked books =>
    obtain ⟨answer, registry⟩ := w.drain_registry
    rw [asked] at answer registry
    dsimp only at answer registry
    rw [answer, registry]
    exact books.drain
  | close _ books => exact books.close
  | elsewhere _ same books => exact same ▸ books

/-- An item that is handed out was counted as outstanding. -/
theorem pending_of_ask (reached : Reached h w) {item : Item} (asked : w.drain = (.item item, w')) :
    w.registry.pending = w'.registry.pending + 1 := by
  have before := reached.accounts.balance
  have after := (reached.ask asked).accounts.balance
  simp only [Answer.items, History.yields_append, History.yields_reads, History.accepted_append,
    History.accepted_reads, List.length_append, List.length_singleton, List.append_nil] at after
  omega

/-- A chunk that is handed out is a patch. -/
theorem slot_of_drain (reached : Reached h w) {chunk : Chunk}
    (asked : w.drain = (.item (.ok chunk), w')) : chunk.slot?.isSome := by
  have after := (reached.ask asked).accounts
  have handedOut : Except.ok chunk ∈ History.yields (h ++ History.reads [.ok chunk]) := by simp
  obtain ⟨c, complete, made⟩ := List.mem_map.1 (after.handedOut.subset handedOut)
  have item := after.items c complete
  rw [made] at item
  cases ending : c.work <;> simp [ending, Registry.item?] at item
  exact item ▸ rfl

/-- Fragments whose items are all patches have come to texts, and these are what the patches bring. -/
theorem patches_of_handedOut (reached : Reached h w) {shown : List Completion}
    (complete : shown <+: History.completions h) {patches : List Chunk}
    (handedOut : shown.map (·.item) = patches.map .ok) :
    ∃ texts : Nat → String, (∀ c ∈ shown, c.work = .done (texts c.slot)) ∧
      patches = shown.map fun c =>
        .patch (Markup.slotName c.slot) (Markup.patch (Markup.slotName c.slot) (texts c.slot)) := by
  have made (c : Completion) (isShown : c ∈ shown) : Registry.item? c.slot c.work = some c.item :=
    reached.accounts.items c (complete.subset isShown)
  have ended : ∀ c ∈ shown, ∃ text, c.work = .done text := by
    intro c isShown
    have made := made c isShown
    have isPatch : c.item ∈ shown.map (·.item) := List.mem_map_of_mem isShown
    rw [handedOut] at isPatch
    obtain ⟨chunk, -, same⟩ := List.mem_map.1 isPatch
    rw [← same] at made
    cases ending : c.work <;> simp [ending, Registry.item?] at made
    exact ⟨_, rfl⟩
  have once : (shown.map (·.slot)).Nodup :=
    (complete.sublist.map _).nodup reached.accounts.once
  -- A slot has one fragment, and this has come to one text.
  have textOf (slot : Nat) : ∃ text, ∀ c ∈ shown, c.slot = slot → c.work = .done text := by
    by_cases known : ∃ c ∈ shown, c.slot = slot
    · obtain ⟨c, isShown, rfl⟩ := known
      obtain ⟨text, isDone⟩ := ended c isShown
      refine ⟨text, fun other isOther same => ?_⟩
      rwa [List.inj_on_of_nodup_map once isOther isShown same]
    · exact ⟨"", fun c isShown same => absurd ⟨c, isShown, same⟩ known⟩
  choose texts ofTexts using textOf
  refine ⟨texts, fun c isShown => ofTexts c.slot c isShown rfl, ?_⟩
  apply List.map_injective_iff.2 (fun a b same => Except.ok.inj same : Function.Injective _)
  rw [← handedOut, List.map_map]
  refine List.map_congr_left fun c isShown => ?_
  have made := made c isShown
  rw [ofTexts c.slot c isShown rfl] at made
  exact (Option.some.inj made).symm

/-- The slots of patches that were handed out are those of the fragments they were made of. -/
theorem slots_of_handedOut (reached : Reached h w) {patches : List Chunk}
    (handedOut : (History.completions h).map (·.item) = patches.map .ok) :
    patches.filterMap Chunk.slot? =
      (History.completions h).map fun c => Markup.slotName c.slot := by
  obtain ⟨texts, -, rfl⟩ := reached.patches_of_handedOut (List.prefix_refl _) handedOut
  rw [List.filterMap_map]
  exact congrFun List.filterMap_eq_map' _

/-- What is outstanding is ready or on its way. -/
theorem pending_eq (reached : Reached h w) (stillOpen : w.registry.closed = false) :
    w.registry.pending = w.registry.ready.length + w.registry.tasks.length := by
  have accounts := reached.accounts
  have balance := accounts.balance
  have placed := (accounts.placed stillOpen).length_eq
  have order := congrArg List.length (accounts.order stillOpen)
  simp only [List.length_append, List.length_map] at placed order
  omega

/-- When the reader is told to stop, nothing is on its way. -/
theorem idle_of_drain (reached : Reached h w) (finished : w.registry.drain.1 = .finished) :
    w.registry.tasks = [] := by
  cases shut : w.registry.closed with
  | true => exact (reached.accounts.idle shut).1
  | false =>
    have pending := reached.pending_eq shut
    rw [((Registry.drain_finished_iff _).1 finished).2] at pending
    exact List.eq_nil_of_length_eq_zero (by omega)

/-- When nothing more can come, all items have been handed out, and all fragments taken in are
    complete. -/
theorem settled_of_drain (reached : Reached h w) (stillOpen : w.registry.closed = false)
    (asked : w.drain = (.finished, w')) :
    (History.completions h).map (·.item) = History.yields h ∧
      ((History.completions h).map (·.slot)).Perm (History.accepted h) := by
  have finished : w.registry.drain.1 = .finished := by rw [← w.drain_registry.1, asked]
  have order := reached.accounts.order stillOpen
  have placed := reached.accounts.placed stillOpen
  rw [((Registry.drain_finished_iff _).1 finished).1, List.append_nil] at order
  rw [reached.idle_of_drain finished, List.map_nil, List.append_nil] at placed
  exact ⟨order, placed.symm⟩

/-- The books of a registry: calls get the numbers 0, 1, 2, … whether their fragments are taken in
    or not; the fragments taken in and not handed out are counted; each of them brings at most one
    item, a patch for its own slot where it ends with markup; and the items are handed out in the
    order of completion. -/
theorem books (reached : Reached h w) :
    History.slots h = List.range (History.slots h).length ∧
    w.registry.pending + (History.yields h).length = (History.accepted h).length ∧
    (∀ item w', w.drain = (.item item, w') → w.registry.pending = w'.registry.pending + 1) ∧
    ((History.completions h).map (·.slot)).Nodup ∧
    (∀ c ∈ History.completions h, c.slot ∈ History.accepted h ∧
      ∀ chunk, c.item = .ok chunk → ∃ html, c.work = .done html ∧
        chunk = .patch (Markup.slotName c.slot) (Markup.patch (Markup.slotName c.slot) html)) ∧
    History.yields h <+: (History.completions h).map (·.item) ∧
    (w.registry.closed = false →
      (History.completions h).map (·.item) = History.yields h ++ w.registry.ready) := by
  have accounts := reached.accounts
  refine ⟨?_, accounts.balance, fun _ _ => reached.pending_of_ask, accounts.once, ?_,
    accounts.handedOut, accounts.order⟩
  · rw [accounts.slots, List.length_range]
  · intro c complete
    refine ⟨accounts.known (List.mem_map_of_mem complete), ?_⟩
    intro chunk patched
    have made := accounts.items c complete
    rw [patched] at made
    cases ending : c.work <;> simp [ending, Registry.item?] at made
    exact ⟨_, rfl, made.symm⟩

end Reached

namespace Reached

/-- A fragment is handed in, ends and is handed out; the registry is given up; another fragment is
    discarded. -/
theorem early_drop : Reached
    ([] ++ [.handedIn 0 none true]
      ++ [.completed ⟨0, .done "a", .ok (.patch "slot-0" (Markup.patch "slot-0" "a"))⟩]
      ++ History.reads [.ok (.patch "slot-0" (Markup.patch "slot-0" "a"))]
      ++ [.handedIn 1 none false])
    (((({} : EventLoop).register fun _ => .done "a").2.runQueue 1).drain.2.close.register
      fun _ => .done "b").2 := by
  have first := (Reached.start (w := {}) rfl).handIn fun _ => .done "a"
  have woken := first.background (.pass (Nat.le_refl _) [])
  have ended := woken.background (.finish (show Registry.task? _ 0 = some (.done "a") from rfl) rfl)
  have handedOut := ended.ask rfl
  exact handedOut.close.handIn fun _ => .done "b"

/-- The books in such a run: the discarded fragment has a number, and nothing is outstanding. -/
theorem early_drop_books : ∃ (h : List Happening) (w : EventLoop),
    Reached h w ∧ History.slots h = [0, 1] ∧ w.registry.pending + 1 = 1 ∧
      History.yields h <+: (History.completions h).map (·.item) := by
  obtain ⟨slots, balance, -, -, -, handedOut, -⟩ := early_drop.books
  exact ⟨_, _, early_drop, slots, balance, handedOut⟩

variable {h : List Happening} {w w' : EventLoop}

/-- What a rendering outside the registry hands in by its steps. -/
theorem steps {work left : Rendering} {handed : List Registration} (reached : Reached h w)
    (steps : work.Steps w handed left w') :
    Reached (h ++ History.handIns none (!w.registry.closed) (handed.map (·.slot))) w' := by
  induction steps generalizing h with
  | refl => simpa using reached
  | head step _ ih =>
    rw [List.map_append, History.handIns_append, ← List.append_assoc]
    obtain ⟨rfl, same⟩ | ⟨content, rfl, rfl⟩ := step.effect
    · rw [← same]
      exact ih (by simpa using reached.elsewhere same)
    · have handedIn := ih (reached.handIn content)
      rwa [register_registry, Registry.register_closed] at handedIn

/-- What comes of a time in the background. -/
theorem meanwhile {new : List Happening} (reached : Reached h w) (moves : w.Meanwhile new w') :
    Reached (h ++ new) w' := by
  induction moves generalizing h with
  | refl => simpa using reached
  | head move _ ih =>
    rw [← List.append_assoc]
    exact ih (reached.background move)

end Reached

end EventLoop

/-! ### Sessions -/

namespace Session

open EventLoop

variable {h : List Happening} {w : EventLoop}

/-- What a state can become, with more of a history. -/
def Onward (h : List Happening) (w : EventLoop) : Prop :=
  ∃ new, Reached (h ++ new) w

theorem Onward.background {w' : EventLoop} {new : List Happening} (onward : Onward h w)
    (move : w.Background new w') : Onward h w' := by
  obtain ⟨before, reached⟩ := onward
  refine ⟨before ++ new, ?_⟩
  rw [← List.append_assoc]
  exact reached.background move

theorem Onward.ask {w' : EventLoop} {answer : Answer} (onward : Onward h w)
    (asked : w.drain = (answer, w')) : Onward h w' := by
  obtain ⟨before, reached⟩ := onward
  refine ⟨before ++ History.reads answer.items, ?_⟩
  rw [← List.append_assoc]
  exact reached.ask asked

/-- Asking for the next item, as something to wait for, is asking the registry. -/
theorem drainAwaitable_poll_snd (w : EventLoop) : (drainAwaitable.poll () w).2 = w.drain.2 := by
  rcases asked : w.drain with ⟨answer, after⟩
  cases answer <;> simp [drainAwaitable, asked]

theorem Onward.poll (onward : Onward h w) : Onward h (drainAwaitable.poll () w).2 := by
  rw [drainAwaitable_poll_snd]
  exact onward.ask rfl

/-- Waiting for the next item. -/
theorem Onward.wait (turns limit : Nat) (onward : Onward h w) :
    Onward h (w.wait drainAwaitable turns limit ()).2 := by
  have left : LeavesOff drainAwaitable (fun _ => Onward h) (w.wait drainAwaitable turns limit ()) :=
    waitRounds_induct turns limit _ onward (fun onward polled => by simpa [polled] using onward.poll)
      Onward.background
  exact left.brings Onward.poll id

/-- Every step of a session leads from a state that can be reached to one that can be reached. -/
theorem reached_perform (turns : Nat) (s : Session) (step : Step) (reached : Reached h w) :
    ∃ new, Reached (h ++ new) (s.perform turns step w).2.2 := by
  have start : Onward h w := ⟨[], h.append_nil.symm ▸ reached⟩
  show Onward h _
  cases step with
  | register fragment inherits => exact ⟨_, reached.handIn _⟩
  | sleep length => exact sleep_keeps turns length start Onward.background
  | drain => exact start
  | drop => exact ⟨[], h.append_nil.symm ▸ reached.close⟩
  | describe => exact start
  | poll =>
    rw [perform]
    split
    · exact start.ask rfl
    · exact start
  | next within =>
    rw [perform]
    split
    · have waited := start.wait turns (w.now + within.getD patience)
      split <;> rename_i asked <;> rw [asked] at waited <;> exact waited
    · exact start

end Session

end ProgressiveHtml
