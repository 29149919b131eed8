import Mathlib.Logic.Function.Basic
import ProgressiveHtml.Proofs.EventLoop.Turn
import ProgressiveHtml.Proofs.Node.Apart
import ProgressiveHtml.Proofs.Registry.Draining
import ProgressiveHtml.Proofs.Related

namespace ProgressiveHtml

/-!
# Registry — each fragment on its own way

Fragments that keep to themselves are handed to a registry, in any order and at any time, while its
reader may ask for items.  Whatever the others do, each of them goes its own way.

* `Diary` — what happened to a registry, and when;
* `Chronicle` — the runs of a registry of such fragments;
* `Standalone.Ends` — when and how a fragment ends on its own;
* `Standalone.Underway`, `Standalone.Follows` — a fragment on its own way;
* `Chronicle.Separate`, `Chronicle.separate` — in every run each fragment is on its own way.
-/

/-- Something that happened, and when. -/
structure Dated where
  time : Nat
  happening : Happening

/-- The time at which a slot was given out. -/
def Dated.handedIn? (slot : Nat) (entry : Dated) : Option Nat :=
  match entry.happening with
  | .handedIn given _ _ => if given = slot then some entry.time else none
  | _ => none

/-- The time at which the fragment of a slot came to its end, and its end. -/
def Dated.completed? (slot : Nat) (entry : Dated) : Option (Nat × Completion) :=
  match entry.happening with
  | .completed c => if c.slot = slot then some (entry.time, c) else none
  | _ => none

/-- What happened to a registry, in order. -/
abbrev Diary := List Dated

namespace Diary

/-- What happened, without the times. -/
def happenings (h : Diary) : List Happening := h.map (·.happening)

/-- The times at which a slot was given out. -/
def handedIn (h : Diary) (slot : Nat) : List Nat := h.filterMap (·.handedIn? slot)

/-- The times at which the fragment of a slot came to its end, each with its end. -/
def completed (h : Diary) (slot : Nat) : List (Nat × Completion) := h.filterMap (·.completed? slot)

/-- Write down what happens now. -/
def note (h : Diary) (now : Nat) (new : List Happening) : Diary := h ++ new.map (⟨now, ·⟩)

variable (h : Diary) (now slot : Nat)

@[simp] theorem happenings_note (new : List Happening) :
    (h.note now new).happenings = h.happenings ++ new := by
  simp [note, happenings, Function.comp_def]

@[simp] theorem handedIn_note (new : List Happening) : (h.note now new).handedIn slot =
    h.handedIn slot ++ new.filterMap (Dated.handedIn? slot ⟨now, ·⟩) := by
  simp [note, handedIn, List.filterMap_append, List.filterMap_map]

@[simp] theorem completed_note (new : List Happening) : (h.note now new).completed slot =
    h.completed slot ++ new.filterMap (Dated.completed? slot ⟨now, ·⟩) := by
  simp [note, completed, List.filterMap_append, List.filterMap_map]

@[simp] theorem handedIn_reads (items : List Item) :
    (History.reads items).filterMap (Dated.handedIn? slot ⟨now, ·⟩) = [] := by
  induction items with
  | nil => rfl
  | cons _ _ ih => exact ih

@[simp] theorem completed_reads (items : List Item) :
    (History.reads items).filterMap (Dated.completed? slot ⟨now, ·⟩) = [] := by
  induction items with
  | nil => rfl
  | cons _ _ ih => exact ih

variable {h slot}

/-- The slot of a fragment that was handed in was given out. -/
theorem mem_slots_of_handedIn (given : h.handedIn slot ≠ []) :
    slot ∈ History.slots h.happenings := by
  obtain ⟨time, member⟩ := List.exists_mem_of_ne_nil _ given
  obtain ⟨entry, here, found⟩ := List.mem_filterMap.1 member
  refine List.mem_filterMap.2 ⟨entry.happening, List.mem_map_of_mem here, ?_⟩
  unfold Dated.handedIn? at found
  split at found
  · rename_i same
    rw [same]
    split at found
    · rename_i mine
      exact congrArg some mine
    · cases found
  · cases found

/-- A fragment that came to its end is among the completions. -/
theorem mem_completions {time : Nat} {c : Completion} (member : (time, c) ∈ h.completed slot) :
    c ∈ History.completions h.happenings ∧ c.slot = slot := by
  obtain ⟨entry, here, found⟩ := List.mem_filterMap.1 member
  unfold Dated.completed? at found
  split at found
  · rename_i same
    split at found
    · rename_i mine
      simp only [Option.some.injEq, Prod.mk.injEq] at found
      obtain ⟨-, rfl⟩ := found
      refine ⟨List.mem_filterMap.2 ⟨entry.happening, List.mem_map_of_mem here, ?_⟩, mine⟩
      rw [same]
      rfl
    · cases found
  · cases found

end Diary

/-! ### Runs -/

/-- The runs of a registry of fragments that keep to themselves: the fragments handed in, in the order
    of their slots, what has happened, and the state reached.  Time passes only when no fragment has
    been woken; the reader may wait for other things and no longer than it likes, and may ask at any
    time. -/
inductive Chronicle : List Standalone → Diary → EventLoop → Prop
  | start {w : EventLoop} (fresh : w.registry = {}) (numbered : ∀ cell ∈ w.used, cell < w.cells) :
      Chronicle [] [] w
  /-- A fragment is handed in. -/
  | handIn {given : List Standalone} {h : Diary} {w : EventLoop} (run : Chronicle given h w)
      (f : Standalone) :
      Chronicle (given ++ [f]) (h.note w.now [.handedIn w.registry.next none true])
        (w.register f.content).2
  /-- The fragment that was woken first has its turn. -/
  | turn {given : List Standalone} {h : Diary} {w : EventLoop} (run : Chronicle given h w) :
      Chronicle given (h.note w.now (w.completed?.toList.map .completed)) w.runNext
  /-- No fragment has been woken: time passes. -/
  | pass {given : List Standalone} {h : Diary} {w : EventLoop} (run : Chronicle given h w)
      (idle : w.registry.queue = []) (alarms : List Alarm) {limit : Nat} (ahead : w.now ≤ limit) :
      Chronicle given h (w.jump alarms limit)
  /-- The reader asks for an item. -/
  | ask {given : List Standalone} {h : Diary} {w w' : EventLoop} {answer : Answer}
      (run : Chronicle given h w) (asked : w.drain = (answer, w')) :
      Chronicle given (h.note w.now (History.reads answer.items)) w'

/-- When and how a fragment ends on its own: how much time passes after it was handed in, and what its
    content comes to. -/
def Standalone.Ends (f : Standalone) (left : Rendering) (after : Nat) : Prop :=
  (f.content 0).EndsAt {} left after

namespace EventLoop

variable {w w' : EventLoop}

/-- A turn of a fragment that hands in nothing shows only whether it comes to its end. -/
theorem runNext_meanwhile_of_apart {slot : Nat} {rest : List Nat} {work : Rendering}
    (queue : w.registry.queue = slot :: rest) (found : w.registry.task? slot = some work)
    (apart : (work.poll (w.woken rest)).2.registry = (w.woken rest).registry) :
    w.Meanwhile (w.completed?.toList.map .completed) w.runNext := by
  have here : (w.woken rest).registry.task? slot = some work := found
  obtain ⟨handed, steps⟩ := work.poll_steps (w.woken rest)
  obtain rfl : handed = [] := by
    have next := steps.numbered.1
    rw [apart] at next
    exact List.eq_nil_of_length_eq_zero (by omega)
  have went := Meanwhile.head (.pass (Nat.le_refl w.now) rest) (.single (.goOn here steps))
  rw [runNext_of_some queue found, completed?_of_some queue found, afterTurn, Registry.conclude]
  cases ended : Registry.item? slot (work.poll (w.woken rest)).1 with
  | none => exact went
  | some item =>
    have kept := Registry.task?_keep (steps.task? here) (work.poll (w.woken rest)).1
    have finished := went.trans (.single (.finish kept ended))
    rw [Registry.deliver_keep] at finished
    exact finished

end EventLoop

open Rendering

/-! ### Each fragment on its own way -/

/-- There is an item exactly when the content of a fragment is over. -/
theorem Registry.isSome_item? (slot : Nat) (r : Rendering) : (item? slot r).isSome = r.isOver := by
  cases r <;> rfl

/-- The fragment of a slot, handed in at `start`, is on its own way: it is where it would be if it
    were alone. -/
inductive Standalone.Underway (f : Standalone) (slot start : Nat) (ρ : Pairing) (w : EventLoop) : Prop
  /-- It was woken and waits for its turn. -/
  | woken {r r' : Rendering} {v : EventLoop} (found : w.registry.task? slot = some r)
      (alike : Alike start ρ r r') (synced : ρ.Synced start w v)
      (turn : slot ∈ w.registry.queue)
      (ends : ∀ left time, f.Ends left time ↔ r'.EndsAt v left time)
  /-- It waits for a sleep to be over. -/
  | asleep {r r' : Rendering} {v : EventLoop} (found : w.registry.task? slot = some r)
      (alike : Alike start ρ r r') (synced : ρ.Synced start w v)
      (turn : slot ∉ w.registry.queue) (ahead : ∀ alarm ∈ r.alarms, w.now < alarm.deadline)
      (ends : ∀ left time, f.Ends left time ↔ r'.ResumesAt v left time)

/-- The fragment of a slot is on its own way, or has come to the end to which it comes alone. -/
def Standalone.Follows (f : Standalone) (slot : Nat) (ρ : Pairing) (h : Diary) (w : EventLoop) : Prop :=
  ∃ start ≤ w.now, h.handedIn slot = [start] ∧
    (h.completed slot = [] ∧ f.Underway slot start ρ w ∨
      ∃ after c, h.completed slot = [(start + after, c)] ∧ start + after ≤ w.now ∧
        f.Ends c.work after)

/-- In a run every fragment is on its own way, with contents of its own. -/
structure Chronicle.Separate (given : List Standalone) (h : Diary) (w : EventLoop)
    (names : Nat → Pairing) : Prop where
  reached : EventLoop.Reached h.happenings w
  stillOpen : w.registry.closed = false
  size : w.registry.next = given.length
  numbered : ∀ cell ∈ w.used, cell < w.cells
  /-- No fragment was woken twice, and only fragments were. -/
  queue : w.registry.queue.Nodup ∧ ∀ slot ∈ w.registry.queue, slot < w.registry.next
  /-- Contents belong to one fragment, and were numbered. -/
  apart : ∀ ⦃i j⦄, i ≠ j → ∀ ⦃a b b'⦄, names i a b → ¬names j a b'
  known : ∀ ⦃i a b⦄, names i a b → a < w.cells
  follows : ∀ ⦃slot : Nat⦄ ⦃f : Standalone⦄, given[slot]? = some f → f.Follows slot (names slot) h w

namespace Standalone.Underway

variable {f : Standalone} {slot start : Nat} {ρ : Pairing} {w w' : EventLoop}

/-- What others do is not noticed. -/
theorem carry (underway : f.Underway slot start ρ w)
    (found : ∀ r, w.registry.task? slot = some r → w'.registry.task? slot = some r)
    (turn : slot ∈ w'.registry.queue ↔ slot ∈ w.registry.queue) (now : w'.now = w.now)
    (synced : ∀ v, ρ.Synced start w v → ρ.Synced start w' v) : f.Underway slot start ρ w' := by
  cases underway with
  | woken here alike agree isWoken ends =>
    exact .woken (found _ here) alike (synced _ agree) (turn.2 isWoken) ends
  | asleep here alike agree isAsleep ahead ends =>
    exact .asleep (found _ here) alike (synced _ agree) (mt turn.1 isAsleep) (now ▸ ahead) ends

theorem found (underway : f.Underway slot start ρ w) : ∃ r, w.registry.task? slot = some r := by
  cases underway with
  | woken here | asleep here => exact ⟨_, here⟩

/-- A fragment that is on its way does not end in the past. -/
theorem now_le (underway : f.Underway slot start ρ w) {left : Rendering} {after : Nat}
    (ends : f.Ends left after) : w.now ≤ start + after := by
  cases underway with
  | woken _ _ synced _ same =>
    have ahead := ((same _ _).1 ends).now_le
    have now := synced.now
    omega
  | @asleep r r' v _ alike synced _ ahead same =>
    have now := synced.now
    have before : ∀ alarm ∈ r'.alarms, v.now < alarm.deadline := by
      intro alarm' isRunning'
      obtain ⟨alarm, isRunning, same⟩ := forall₂_mem_right alike.alarms isRunning'
      have later := ahead alarm isRunning
      omega
    have later := ((same _ _).1 ends).now_lt before
    omega

/-- A fragment is on its way from the moment it is handed in. -/
theorem handIn (f : Standalone) {slot : Nat} {w : EventLoop}
    (numbered : ∀ cell ∈ w.used, cell < w.cells)
    (found : w.registry.task? slot = some (f.content slot)) (turn : slot ∈ w.registry.queue) :
    f.Underway slot w.now (fun _ _ => False) w := by
  refine .woken found (f.alike w.now _ slot 0) ?_ turn fun _ _ => Iff.rfl
  exact .nothing (Nat.zero_add _).symm numbered fun _ isUsed => absurd isUsed List.not_mem_nil

/-- What the turn of a fragment comes to: it has come to its own end, or it is still on its way and has
    perhaps got contents of its own. -/
theorem turn {rest : List Nat} (underway : f.Underway slot start ρ w)
    (queue : w.registry.queue = slot :: rest) (once : slot ∉ rest) :
    ∃ work ρ', w.registry.task? slot = some work ∧
      ρ.Grows ρ' (w.woken rest) (work.poll (w.woken rest)).2 ∧
      (∀ ⦃a b⦄, ρ' a b → a < (work.poll (w.woken rest)).2.cells) ∧
      (∀ cell ∈ (work.poll (w.woken rest)).2.used, cell < (work.poll (w.woken rest)).2.cells) ∧
      ((∃ after c, w.completed? = some c ∧ c.slot = slot ∧ w.now = start + after ∧
          f.Ends c.work after) ∨
        w.completed? = none ∧ f.Underway slot start ρ' w.runNext) := by
  cases underway with
  | asleep _ _ _ isAsleep => exact absurd (queue ▸ List.mem_cons_self) isAsleep
  | @woken work r' v found alike synced isWoken ends =>
    have synced : ρ.Synced start (w.woken rest) v := synced.congr rfl rfl rfl
    obtain ⟨ρ', grows, agree, left⟩ := alike.poll synced
    refine ⟨work, ρ', found, grows, fun _ _ paired => (agree.known paired).1, agree.numbered.1, ?_⟩
    have completed := EventLoop.completed?_of_some queue found
    have isItem := Registry.isSome_item? slot (work.poll (w.woken rest)).1
    obtain ⟨waits, waits'⟩ | ⟨ended, same⟩ := left.endsLike
    · rw [waits, Option.isSome_eq_false_iff, Option.isNone_iff_eq_none] at isItem
      refine .inr ⟨by rw [completed, isItem, Option.map_none], ?_⟩
      rw [EventLoop.runNext_of_some queue found, EventLoop.afterTurn, grows.registry]
      refine .asleep ?_ left (agree.congr rfl rfl rfl) ?_ ?_ fun _ _ =>
        (ends _ _).trans (endsAt_of_waiting waits')
      · -- It is kept where it has got to.
        rw [Registry.conclude, isItem]
        exact Registry.task?_keep found _
      · rw [Registry.conclude_queue]
        exact once
      · exact (work.rests_poll (work.poll_now (w.woken rest)).symm).ahead
    · rw [ended, Option.isSome_iff_exists] at isItem
      obtain ⟨item, isItem⟩ := isItem
      refine .inl ⟨v.now, _, by rw [completed, isItem, Option.map_some], rfl, ?_, ?_⟩
      · rw [← Nat.add_comm v.now]
        exact synced.now
      · exact (ends _ _).2 ((endsAt_of_isOver (same ▸ ended)).2 ⟨same, rfl⟩)

end Standalone.Underway

/-- What concerns others is not noticed. -/
theorem Standalone.Follows.carry {f : Standalone} {slot now : Nat} {ρ : Pairing} {h : Diary}
    {w w' : EventLoop} (follows : f.Follows slot ρ h w) {new : List Happening}
    (noHandIn : new.filterMap (Dated.handedIn? slot ⟨now, ·⟩) = [])
    (noEnd : new.filterMap (Dated.completed? slot ⟨now, ·⟩) = []) (later : w.now ≤ w'.now)
    (onward : ∀ start, f.Underway slot start ρ w → f.Underway slot start ρ w') :
    f.Follows slot ρ (h.note now new) w' := by
  obtain ⟨start, before, given, ⟨notYet, underway⟩ | ⟨after, c, complete, past, ends⟩⟩ := follows
  · refine ⟨start, Nat.le_trans before later, by simp [given, noHandIn], .inl ⟨?_, onward _ underway⟩⟩
    simp [notYet, noEnd]
  · refine ⟨start, Nat.le_trans before later, by simp [given, noHandIn],
      .inr ⟨after, c, ?_, Nat.le_trans past later, ends⟩⟩
    simp [complete, noEnd]

namespace Chronicle.Separate

variable {given : List Standalone} {h : Diary} {w : EventLoop} {names : Nat → Pairing}

/-- Slots that are to come have not been given out. -/
theorem unknown (separate : Separate given h w names) {slot : Nat} (future : w.registry.next ≤ slot) :
    h.handedIn slot = [] ∧ h.completed slot = [] ∧ w.registry.task? slot = none ∧
      slot ∉ w.registry.queue := by
  have accounts := separate.reached.accounts
  have notGiven : slot ∉ History.slots h.happenings := by
    rw [accounts.slots, List.mem_range]
    omega
  refine ⟨?_, ?_, ?_, fun isWoken => ?_⟩
  · by_contra handedIn
    exact notGiven (Diary.mem_slots_of_handedIn handedIn)
  · by_contra complete
    obtain ⟨⟨time, c⟩, member⟩ := List.exists_mem_of_ne_nil _ complete
    obtain ⟨isComplete, rfl⟩ := Diary.mem_completions member
    exact notGiven ((History.accepted_sublist _).subset
      (accounts.known (List.mem_map_of_mem isComplete)))
  · cases found : w.registry.task? slot with
    | none => rfl
    | some work =>
      have bound := (accounts.onItsWay (Registry.mem_of_task? found)).1
      exact absurd bound (Nat.not_lt.2 future)
  · exact absurd (separate.queue.2 slot isWoken) (Nat.not_lt.2 future)

theorem handIn (separate : Separate given h w names) (f : Standalone) :
    Separate (given ++ [f]) (h.note w.now [.handedIn w.registry.next none true])
      (w.register f.content).2
      (Function.update names w.registry.next fun _ _ => False) := by
  have stillOpen := separate.stillOpen
  obtain ⟨noHandIn, noEnd, noTask, notWoken⟩ := separate.unknown (Nat.le_refl w.registry.next)
  have queue := Registry.register_queue stillOpen f.content
  have tasks := Registry.register_tasks stillOpen f.content
  constructor
  case reached =>
    have reached := separate.reached.handIn f.content
    rw [Diary.happenings_note]
    rwa [stillOpen] at reached
  case stillOpen => simpa using stillOpen
  case size => simpa using separate.size
  case numbered => exact separate.numbered
  case queue =>
    rw [EventLoop.register_registry, Registry.register_next, queue]
    refine ⟨List.nodup_append.2 ⟨separate.queue.1, List.nodup_singleton _, ?_⟩, ?_⟩
    · rintro slot isWoken _ same rfl
      exact notWoken (List.mem_singleton.1 same ▸ isWoken)
    · intro slot isWoken
      obtain before | new := List.mem_append.1 isWoken
      · exact Nat.lt_succ_of_lt (separate.queue.2 slot before)
      · exact List.mem_singleton.1 new ▸ Nat.lt_succ_self _
  case apart =>
    intro i j differ a b b' ofI ofJ
    by_cases newI : i = w.registry.next
    · simp [newI] at ofI
    · by_cases newJ : j = w.registry.next
      · simp [newJ] at ofJ
      · rw [Function.update_of_ne newI] at ofI
        rw [Function.update_of_ne newJ] at ofJ
        exact separate.apart differ ofI ofJ
  case known =>
    intro i a b ofI
    by_cases newI : i = w.registry.next
    · simp [newI] at ofI
    · rw [Function.update_of_ne newI] at ofI
      exact separate.known ofI
  case follows =>
    intro slot g isGiven
    -- Those that were there before do not notice, and the new one has everything before it.
    obtain before | new := Nat.lt_or_ge slot given.length
    · rw [List.getElem?_append_left before] at isGiven
      have other : slot ≠ w.registry.next := by
        rw [separate.size]
        exact Nat.ne_of_lt before
      rw [Function.update_of_ne other]
      refine (separate.follows isGiven).carry (by simp [Dated.handedIn?, other.symm]) rfl
        (Nat.le_refl _) fun start underway => underway.carry ?_ ?_ rfl fun v agree => agree.congr rfl rfl rfl
      · exact fun r found => Registry.task?_register found _
      · simp [queue, other]
    · obtain rfl : slot = w.registry.next := by
        have bound := (List.getElem?_eq_some_iff.1 isGiven).1
        rw [List.length_append, List.length_singleton] at bound
        rw [separate.size]
        omega
      obtain rfl : f = g := by
        rw [separate.size, List.getElem?_concat_length] at isGiven
        exact Option.some.inj isGiven
      rw [Function.update_self]
      refine ⟨w.now, Nat.le_refl _, by simp [noHandIn, Dated.handedIn?],
        .inl ⟨by simp [noEnd, Dated.completed?], ?_⟩⟩
      refine Standalone.Underway.handIn f (w := (w.register f.content).2) separate.numbered ?_ ?_
      · have absent : w.registry.tasks.find? (·.slot == w.registry.next) = none :=
          Option.map_eq_none_iff.1 noTask
        simp [tasks, Registry.task?, List.find?_append, absent]
      · simp [queue]

/-- The turn of a fragment that is complete. -/
theorem skip (separate : Separate given h w names) {slot : Nat} {rest : List Nat}
    (queue : w.registry.queue = slot :: rest) (gone : w.registry.task? slot = none) :
    Separate given h (w.woken rest) names where
  reached := by
    have reached := separate.reached.background (.pass (Nat.le_refl w.now) rest)
    rwa [List.append_nil] at reached
  stillOpen := separate.stillOpen
  size := separate.size
  numbered := separate.numbered
  queue := by
    obtain ⟨nodup, bound⟩ := separate.queue
    rw [queue] at nodup bound
    exact ⟨(List.nodup_cons.1 nodup).2, fun other isWoken => bound other (List.mem_cons_of_mem _ isWoken)⟩
  apart := separate.apart
  known := separate.known
  follows other f isGiven := by
    have follows : f.Follows other (names other) (h.note w.now []) (w.woken rest) :=
      (separate.follows isGiven).carry rfl rfl (Nat.le_refl _) fun start underway =>
        underway.carry (fun _ => id) ?_ rfl fun v agree => agree.congr rfl rfl rfl
    · simpa [Diary.note] using follows
    · -- A fragment that is on its way has another slot, because there is no task for this one.
      have onItsWay : other ≠ slot := by
        rintro rfl
        obtain ⟨r, found⟩ := underway.found
        rw [gone] at found
        cases found
      simp [EventLoop.woken, queue, onItsWay]

/-- The turn of a fragment that is on its way. -/
theorem goOn (separate : Separate given h w names) {slot start : Nat} {rest : List Nat}
    {f : Standalone} (queue : w.registry.queue = slot :: rest) (isGiven : given[slot]? = some f)
    (before : start ≤ w.now) (handedIn : h.handedIn slot = [start]) (notYet : h.completed slot = [])
    (underway : f.Underway slot start (names slot) w) :
    (∃ names', Separate given (h.note w.now (w.completed?.toList.map .completed)) w.runNext names') ∧
      w.runNext.registry.queue = rest ∧ w.runNext.now = w.now := by
  obtain ⟨nodup, bound⟩ := separate.queue
  rw [queue, List.nodup_cons] at nodup
  obtain ⟨work, ρ', found, grows, known, numbered, comes⟩ := underway.turn queue nodup.1
  have ran := EventLoop.runNext_of_some queue found
  have registry : w.runNext.registry =
      (w.woken rest).registry.conclude slot (work.poll (w.woken rest)).1 := by
    rw [ran, EventLoop.afterTurn, grows.registry]
  have now : w.runNext.now = w.now := by rw [ran]; exact grows.now
  have turned : w.runNext.registry.queue = rest := by rw [registry, Registry.conclude_queue]; rfl
  -- The contents of this fragment are new, so that they belong to no other.
  have ownContents : ∀ ⦃j⦄, j ≠ slot → ∀ ⦃a b b'⦄, names j a b → ¬ρ' a b' := by
    intro j differ a b b' ofJ own
    obtain old | new := grows.fresh own
    · exact separate.apart differ ofJ old
    · exact absurd (separate.known ofJ) (Nat.not_lt.2 new)
  refine ⟨⟨Function.update names slot ρ', ?_⟩, turned, now⟩
  constructor
  case reached =>
    rw [Diary.happenings_note]
    exact separate.reached.meanwhile
      (EventLoop.runNext_meanwhile_of_apart queue found grows.registry)
  case stillOpen => rw [registry, Registry.conclude_closed]; exact separate.stillOpen
  case size => rw [registry, Registry.conclude_next]; exact separate.size
  case numbered => rw [ran]; exact numbered
  case queue =>
    rw [turned, registry, Registry.conclude_next]
    exact ⟨nodup.2, fun other isWoken => bound other (queue ▸ List.mem_cons_of_mem _ isWoken)⟩
  case apart =>
    intro i j differ a b b' ofI ofJ
    by_cases mineI : i = slot
    · subst mineI
      rw [Function.update_self] at ofI
      rw [Function.update_of_ne differ.symm] at ofJ
      exact ownContents differ.symm ofJ ofI
    · rw [Function.update_of_ne mineI] at ofI
      by_cases mineJ : j = slot
      · subst mineJ
        rw [Function.update_self] at ofJ
        exact ownContents differ ofI ofJ
      · rw [Function.update_of_ne mineJ] at ofJ
        exact separate.apart differ ofI ofJ
  case known =>
    rw [ran]
    intro i a b ofI
    by_cases mine : i = slot
    · subst mine
      rw [Function.update_self] at ofI
      exact known ofI
    · rw [Function.update_of_ne mine] at ofI
      exact Nat.lt_of_lt_of_le (separate.known ofI) grows.cells
  case follows =>
    intro other g isOther
    by_cases mine : other = slot
    · subst mine
      obtain rfl : f = g := Option.some.inj (isGiven.symm.trans isOther)
      rw [Function.update_self]
      obtain ⟨after, c, completed, mine, time, ends⟩ | ⟨completed, underway⟩ := comes
      · refine ⟨start, now ▸ before, by simp [handedIn, completed, Dated.handedIn?],
          .inr ⟨after, c, ?_, by rw [now, time], ends⟩⟩
        simp [notYet, completed, Dated.completed?, mine, time]
      · refine ⟨start, now ▸ before, by simp [handedIn, completed],
          .inl ⟨by simp [notYet, completed], underway⟩⟩
    · rw [Function.update_of_ne mine]
      refine (separate.follows isOther).carry ?_ ?_ (Nat.le_of_eq now.symm) fun start underway =>
        underway.carry ?_ ?_ now fun v agree => ?_
      · cases w.completed? <;> rfl
      · obtain ⟨_, c, completed, isMine, -⟩ | ⟨completed, -⟩ := comes
        · have others : c.slot ≠ other := isMine ▸ Ne.symm mine
          simp [completed, Dated.completed?, others]
        · simp [completed]
      · intro r here
        rw [registry, Registry.task?_conclude mine]
        exact here
      · rw [turned, queue, List.mem_cons, or_iff_right mine]
      · have agree : (names other).Synced start (w.woken rest) v := agree.congr rfl rfl rfl
        have aside := agree.aside grows numbered (ownContents mine)
        rw [ran]
        exact aside.congr rfl rfl rfl

/-- The turn of the fragment that was woken first. -/
theorem turn (separate : Separate given h w names) :
    (∃ names', Separate given (h.note w.now (w.completed?.toList.map .completed)) w.runNext names') ∧
      w.runNext.registry.queue = w.registry.queue.tail ∧ w.runNext.now = w.now := by
  cases queue : w.registry.queue with
  | nil =>
    have nothing : w.runNext = w ∧ w.completed? = none := by
      simp [EventLoop.runNext, EventLoop.completed?, queue]
    rw [nothing.1, nothing.2]
    exact ⟨⟨names, by simpa [Diary.note] using separate⟩, queue, rfl⟩
  | cons slot rest =>
    obtain ⟨nodup, bound⟩ := separate.queue
    rw [queue, List.nodup_cons] at nodup
    have isGiven : slot < given.length := by
      rw [← separate.size]
      exact bound slot (queue ▸ List.mem_cons_self)
    obtain ⟨start, before, handedIn, ⟨notYet, underway⟩ | ⟨after, c, complete, -, -⟩⟩ :=
      separate.follows (List.getElem?_eq_getElem isGiven)
    · exact separate.goOn queue (List.getElem?_eq_getElem isGiven) before handedIn notYet underway
    · -- A fragment that is complete is not on its way.
      have gone : w.registry.task? slot = none := by
        cases found : w.registry.task? slot with
        | none => rfl
        | some work =>
          have member : (start + after, c) ∈ h.completed slot := complete ▸ List.mem_singleton_self _
          obtain ⟨isComplete, mine⟩ := Diary.mem_completions member
          have onItsWay := separate.reached.accounts.onItsWay (Registry.mem_of_task? found)
          exact absurd mine (onItsWay.2 c isComplete)
      rw [EventLoop.runNext_of_none queue gone, EventLoop.completed?_of_none queue gone]
      exact ⟨⟨names, by simpa [Diary.note] using separate.skip queue gone⟩, rfl, rfl⟩

/-- Time passes: a fragment sleeps on, or the first of its sleeps is just over. -/
theorem pass (separate : Separate given h w names) (idle : w.registry.queue = [])
    (alarms : List Alarm) {limit : Nat} (ahead : w.now ≤ limit) :
    Separate given h (w.jump alarms limit) names where
  reached := by
    have reached := separate.reached.background (w.jump_background alarms ahead)
    rwa [List.append_nil] at reached
  stillOpen := separate.stillOpen
  size := separate.size
  numbered := separate.numbered
  queue := by
    refine ⟨Registry.due_nodup separate.reached.accounts.tasks_nodup _, fun slot isDue => ?_⟩
    obtain ⟨task, here, rfl, -⟩ := Registry.mem_due_iff.1 isDue
    exact (separate.reached.accounts.onItsWay here).1
  apart := separate.apart
  known := separate.known
  follows slot f isGiven := by
    have later := w.now_le_nextInstant alarms ahead
    obtain ⟨start, before, handedIn, ⟨notYet, underway⟩ | ⟨after, c, complete, past, ends⟩⟩ :=
      separate.follows isGiven
    · refine ⟨start, Nat.le_trans before later, handedIn, .inl ⟨notYet, ?_⟩⟩
      cases underway with
      | woken _ _ _ isWoken => simp [idle] at isWoken
      | @asleep r r' v found alike synced _ waits ends =>
        have here := Registry.mem_of_task? found
        have now := synced.now
        have pass {now : Nat} (present : w.nextInstant alarms limit = now + start) :
            (names slot).Synced start (w.jump alarms limit) (v.movedTo now) :=
          synced.pass present rfl rfl
        -- Time stops at the latest when the first of the sleeps is over.
        have stops : ∀ alarm ∈ r.alarms, w.nextInstant alarms limit ≤ alarm.deadline :=
          fun alarm isRunning => w.nextInstant_le limit (List.mem_append_right _
            (List.mem_flatMap.2 ⟨_, here, isRunning⟩)) (waits alarm isRunning)
        by_cases isDue : slot ∈ (w.jump alarms limit).registry.queue
        · obtain ⟨task, isTask, mine, alarm, isRunning, ended⟩ := Registry.mem_due_iff.1 isDue
          obtain rfl : task = ⟨slot, r⟩ :=
            List.inj_on_of_nodup_map separate.reached.accounts.tasks_nodup isTask here mine
          have present := Nat.le_antisymm (stops alarm isRunning) ended
          obtain ⟨alarm', isRunning', same⟩ := forall₂_mem_left alike.alarms isRunning
          have first : ∀ other ∈ r'.alarms, alarm'.deadline ≤ other.deadline := by
            intro other' isOther'
            obtain ⟨other, isOther, sameOther⟩ := forall₂_mem_right alike.alarms isOther'
            have stopped := stops other isOther
            omega
          refine .woken found alike (pass (present.trans same)) isDue fun _ _ => ?_
          exact (ends _ _).trans (resumesAt_iff isRunning' first)
        · have present : w.nextInstant alarms limit = w.nextInstant alarms limit - start + start := by
            omega
          refine .asleep found alike (pass present) isDue (fun alarm isRunning => ?_) ends
          exact Nat.lt_of_not_le fun ended => isDue (Registry.mem_due here isRunning ended)
    · exact ⟨start, Nat.le_trans before later, handedIn,
        .inr ⟨after, c, complete, Nat.le_trans past later, ends⟩⟩

/-- The reader asks for an item. -/
theorem ask (separate : Separate given h w names) {w' : EventLoop} {answer : Answer}
    (asked : w.drain = (answer, w')) :
    Separate given (h.note w.now (History.reads answer.items)) w' names := by
  obtain ⟨now, cells, used, queue⟩ := EventLoop.drain_apart asked
  obtain ⟨closed, next, tasks⟩ := EventLoop.registry_of_drain asked
  constructor
  case reached =>
    rw [Diary.happenings_note]
    exact separate.reached.ask asked
  case stillOpen => rw [closed]; exact separate.stillOpen
  case size => rw [next]; exact separate.size
  case numbered => rw [cells, used]; exact separate.numbered
  case queue => rw [queue, next]; exact separate.queue
  case apart => exact separate.apart
  case known => rw [cells]; exact separate.known
  case follows =>
    intro slot f isGiven
    refine (separate.follows isGiven).carry (Diary.handedIn_reads _ _ _) (Diary.completed_reads _ _ _)
      (Nat.le_of_eq now.symm) fun start underway => underway.carry ?_ ?_ now fun v agree =>
        agree.congr now cells used
    · rw [Registry.task?, Registry.task?, tasks]
      exact fun _ => id
    · rw [queue]

end Chronicle.Separate

/-- In every run each fragment is on its own way. -/
theorem Chronicle.separate {given : List Standalone} {h : Diary} {w : EventLoop}
    (run : Chronicle given h w) : ∃ names, Separate given h w names := by
  induction run with
  | start fresh numbered =>
    refine ⟨fun _ _ _ => False, ?_⟩
    constructor
    case reached => exact .start fresh
    case stillOpen => rw [fresh]
    case size => rw [fresh]; rfl
    case numbered => exact numbered
    case queue => rw [fresh]; exact ⟨List.nodup_nil, fun _ isWoken => absurd isWoken List.not_mem_nil⟩
    case apart => exact fun _ _ _ _ _ _ none => none.elim
    case known => exact fun _ _ _ none => none.elim
    case follows => exact fun _ _ isGiven => by simp at isGiven
  | handIn _ f ih =>
    obtain ⟨names, separate⟩ := ih
    exact ⟨_, separate.handIn f⟩
  | turn _ ih =>
    obtain ⟨names, separate⟩ := ih
    exact separate.turn.1
  | pass _ idle alarms ahead ih =>
    obtain ⟨names, separate⟩ := ih
    exact ⟨names, separate.pass idle alarms ahead⟩
  | ask _ asked ih =>
    obtain ⟨names, separate⟩ := ih
    exact ⟨names, separate.ask asked⟩

end ProgressiveHtml
