import ProgressiveHtml.EventLoop.Wait
import ProgressiveHtml.Proofs.Rendering.Step

namespace ProgressiveHtml

/-!
# Event loop — what happens in the background

While the reader of a stream does nothing, time passes and late fragments go on.  What can be seen
of this is written into a history: which slots were given out and to whom, and which fragments
came to an end.  The same history takes what the reader gets.

* `Happening`, `History.slots`, `History.completions`, `History.yields` — histories and their parts;
* `EventLoop.Background` — one thing that happens in the background;
* `EventLoop.Meanwhile` — any number of them;
* `EventLoop.runTask_meanwhile`, `EventLoop.waitRounds_induct` — running tasks and waiting are made of
  these alone.
-/

/-- A late fragment has come to its end: its slot, the end itself, and the item made of it. -/
structure Completion where
  slot : Nat
  work : Rendering
  item : Item

/-- What can be seen of a run. -/
inductive Happening where
  /-- A fragment was handed in and got a slot.  The host is the late fragment in whose content it
      stands, or `none` if it does not come from a late fragment.  It is taken in unless the
      registry is closed. -/
  | handedIn (slot : Nat) (host : Option Nat) (taken : Bool)
  /-- A late fragment has come to its end. -/
  | completed (completion : Completion)
  /-- The reader got an item. -/
  | yielded (item : Item)

/-! ### Histories -/

namespace Happening

/-- The slot that was given out. -/
def slot? : Happening → Option Nat
  | handedIn slot .. => some slot
  | _ => none

/-- The slot of a fragment that was taken in. -/
def accepted? : Happening → Option Nat
  | handedIn slot _ true => some slot
  | _ => none

/-- The completion. -/
def completion? : Happening → Option Completion
  | completed completion => some completion
  | _ => none

/-- The item that the reader got. -/
def item? : Happening → Option Item
  | yielded item => some item
  | _ => none

end Happening

namespace History

/-- The slots that were given out, in order. -/
def slots (h : List Happening) : List Nat := h.filterMap Happening.slot?

/-- The slots of the fragments that were taken in, in order. -/
def accepted (h : List Happening) : List Nat := h.filterMap Happening.accepted?

/-- The completions, in order. -/
def completions (h : List Happening) : List Completion := h.filterMap Happening.completion?

/-- The items that the reader got, in order. -/
def yields (h : List Happening) : List Item := h.filterMap Happening.item?

/-- Fragments of one host are handed in and get the given slots. -/
def handIns (host : Option Nat) (taken : Bool) (slots : List Nat) : List Happening :=
  slots.map (.handedIn · host taken)

/-- The reader gets the given items. -/
def reads (items : List Item) : List Happening :=
  items.map .yielded

variable (h new : List Happening)

@[simp] theorem slots_append : slots (h ++ new) = slots h ++ slots new := List.filterMap_append

@[simp] theorem accepted_append : accepted (h ++ new) = accepted h ++ accepted new :=
  List.filterMap_append

@[simp] theorem completions_append : completions (h ++ new) = completions h ++ completions new :=
  List.filterMap_append

@[simp] theorem yields_append : yields (h ++ new) = yields h ++ yields new :=
  List.filterMap_append

@[simp] theorem slots_nil : slots [] = [] := rfl
@[simp] theorem accepted_nil : accepted [] = [] := rfl
@[simp] theorem completions_nil : completions [] = [] := rfl
@[simp] theorem yields_nil : yields [] = [] := rfl

@[simp] theorem slots_completed (c : Completion) : slots [.completed c] = [] := rfl
@[simp] theorem accepted_completed (c : Completion) : accepted [.completed c] = [] := rfl
@[simp] theorem completions_completed (c : Completion) : completions [.completed c] = [c] := rfl
@[simp] theorem yields_completed (c : Completion) : yields [.completed c] = [] := rfl

section handIns

variable (host : Option Nat) (taken : Bool) (given : List Nat)

@[simp] theorem handIns_nil : handIns host taken [] = [] := rfl

@[simp] theorem slots_handIns : slots (handIns host taken given) = given := by
  induction given with
  | nil => rfl
  | cons slot rest ih => exact congrArg (slot :: ·) ih

@[simp] theorem accepted_handIns :
    accepted (handIns host taken given) = if taken then given else [] := by
  induction given with
  | nil => simp
  | cons slot rest ih =>
    cases taken with
    | true => exact congrArg (slot :: ·) ih
    | false => exact ih

@[simp] theorem completions_handIns : completions (handIns host taken given) = [] := by
  induction given with
  | nil => rfl
  | cons _ _ ih => exact ih

@[simp] theorem yields_handIns : yields (handIns host taken given) = [] := by
  induction given with
  | nil => rfl
  | cons _ _ ih => exact ih

theorem handIns_append (later : List Nat) :
    handIns host taken (given ++ later) = handIns host taken given ++ handIns host taken later :=
  List.map_append

end handIns

section reads

variable (items : List Item)

@[simp] theorem reads_nil : reads [] = [] := rfl

@[simp] theorem slots_reads : slots (reads items) = [] := by
  induction items with
  | nil => rfl
  | cons _ _ ih => exact ih

@[simp] theorem accepted_reads : accepted (reads items) = [] := by
  induction items with
  | nil => rfl
  | cons _ _ ih => exact ih

@[simp] theorem completions_reads : completions (reads items) = [] := by
  induction items with
  | nil => rfl
  | cons _ _ ih => exact ih

@[simp] theorem yields_reads : yields (reads items) = items := by
  induction items with
  | nil => rfl
  | cons item _ ih => exact congrArg (item :: ·) ih

end reads

/-- What was taken in is among what was handed in. -/
theorem accepted_sublist : (accepted h).Sublist (slots h) := by
  induction h with
  | nil => exact .slnil
  | cons happening rest ih =>
    match happening with
    | .handedIn slot _ true => exact ih.cons_cons slot
    | .handedIn slot _ false => exact ih.cons slot
    | .completed _ => exact ih
    | .yielded _ => exact ih

end History

/-! ### What a registry remembers of its fragments -/

namespace Registry

variable (r : Registry) (slot : Nat)

/-- Delivering a fragment forgets how far it had got. -/
theorem deliver_keep (work : Rendering) (item : Item) :
    (r.keep slot work).deliver slot item = r.deliver slot item := by
  have same : ((r.tasks.map fun task => if task.slot = slot then ⟨slot, work⟩ else task).filter
      (·.slot != slot)) = r.tasks.filter (·.slot != slot) := by
    induction r.tasks with
    | nil => rfl
    | cons task rest ih =>
      by_cases mine : task.slot = slot <;> simp [mine, ih]
  simp only [deliver, keep, same]

variable {r slot}

/-- A fragment that goes on is found where it has got to. -/
theorem task?_keep {work : Rendering} (found : r.task? slot = some work) (left : Rendering) :
    (r.keep slot left).task? slot = some left := by
  unfold task? keep at *
  generalize r.tasks = tasks at found
  induction tasks with
  | nil => simp at found
  | cons task rest ih =>
    by_cases mine : task.slot = slot
    · simp [mine]
    · simp [mine] at found ⊢
      simpa using ih (by simpa using found)

/-- Fragments that are on their way stay where they are when another one is handed in. -/
theorem task?_register {work : Rendering} (found : r.task? slot = some work)
    (content : Nat → Rendering) : (r.register content).task? slot = some work := by
  unfold register
  split
  · exact found
  · unfold task? at *
    rw [Option.map_eq_some_iff] at found ⊢
    obtain ⟨task, found, same⟩ := found
    exact ⟨task, by simp [List.find?_append, found], same⟩

end Registry

/-- A fragment is woken when a sleep is over that it waits for. -/
theorem Registry.mem_due {r : Registry} {now : Nat} {task : FragmentTask} {alarm : Alarm}
    (here : task ∈ r.tasks) (isRunning : alarm ∈ task.work.alarms) (ended : alarm.deadline ≤ now) :
    task.slot ∈ r.due now := by
  have isOver : alarm.number ∈ (task.work.alarms.filter (·.deadline ≤ now)).map (·.number) :=
    List.mem_map_of_mem (List.mem_filter.2 ⟨isRunning, by simpa using ended⟩)
  obtain ⟨first, isFirst⟩ := Option.isSome_iff_exists.1 (List.isSome_min?_of_mem isOver)
  refine List.mem_map.2 ⟨(first, task.slot), ?_, rfl⟩
  rw [List.mem_mergeSort]
  exact List.mem_filterMap.2 ⟨task, here, by rw [isFirst]; rfl⟩

/-- Fragments that are on their way are not touched by the steps of another rendering. -/
theorem Rendering.Steps.task? {r r' : Rendering} {w w' : EventLoop} {handed : List Registration}
    (steps : r.Steps w handed r' w') {slot : Nat} {work : Rendering}
    (found : w.registry.task? slot = some work) : w'.registry.task? slot = some work := by
  induction steps with
  | refl => exact found
  | head step _ ih =>
    apply ih
    obtain ⟨_, same⟩ | ⟨content, _, rfl⟩ := step.effect
    · rw [same]
      exact found
    · exact Registry.task?_register found content

namespace EventLoop

/-! ### The background -/

/-- One thing that happens in the background, and what can be seen of it. -/
inductive Background : EventLoop → List Happening → EventLoop → Prop
  /-- Time passes, and fragments are woken or come up in turn. -/
  | pass {w : EventLoop} {now : Nat} (later : w.now ≤ now) (queue : List Nat) :
      Background w []
        { w with timeline := { w.timeline with now }, registry := { w.registry with queue } }
  /-- A late fragment goes on. -/
  | goOn {w w' : EventLoop} {slot : Nat} {work left : Rendering} {handed : List Registration}
      (found : w.registry.task? slot = some work) (steps : work.Steps w handed left w') :
      Background w (History.handIns (some slot) (!w.registry.closed) (handed.map (·.slot)))
        { w' with registry := w'.registry.keep slot left }
  /-- A late fragment has come to its end. -/
  | finish {w : EventLoop} {slot : Nat} {work : Rendering} {item : Item}
      (found : w.registry.task? slot = some work) (ended : Registry.item? slot work = some item) :
      Background w [.completed ⟨slot, work, item⟩]
        { w with registry := w.registry.deliver slot item }

/-- Any number of things that happen in the background. -/
inductive Meanwhile : EventLoop → List Happening → EventLoop → Prop
  | refl (w : EventLoop) : Meanwhile w [] w
  | head {w w' w'' : EventLoop} {new later : List Happening} (first : w.Background new w')
      (rest : Meanwhile w' later w'') : Meanwhile w (new ++ later) w''

namespace Meanwhile

variable {w w' w'' : EventLoop} {new later : List Happening}

theorem single (move : w.Background new w') : w.Meanwhile new w' := by
  simpa using head move (refl w')

theorem trans (first : w.Meanwhile new w') (second : w'.Meanwhile later w'') :
    w.Meanwhile (new ++ later) w'' := by
  induction first with
  | refl => exact second
  | head move _ ih =>
    rw [List.append_assoc]
    exact head move (ih second)

end Meanwhile

namespace Background

variable {w w' : EventLoop} {new : List Happening}

/-- The reader gets nothing from the background. -/
theorem yields (move : w.Background new w') : History.yields new = [] := by
  cases move <;> simp

/-- The background neither opens nor closes a registry. -/
theorem closed (move : w.Background new w') :
    w'.registry.closed = w.registry.closed := by
  cases move with
  | pass | finish => rfl
  | goOn _ steps => exact steps.closed

/-- What is handed in in the background is taken in by an open registry. -/
theorem taken (move : w.Background new w') (stillOpen : w.registry.closed = false) :
    History.accepted new = History.slots new := by
  cases move with
  | pass | finish => rfl
  | goOn => simp [stillOpen]

/-- Without fragments on their way nothing but time passes. -/
theorem of_idle (move : w.Background new w') (idle : w.registry.tasks = []) :
    new = [] ∧ ∃ now queue, w.now ≤ now ∧
      w' = { w with timeline := { w.timeline with now }, registry := { w.registry with queue } } := by
  have none (slot : Nat) : w.registry.task? slot = none := by simp [Registry.task?, idle]
  cases move with
  | pass later queue => exact ⟨rfl, _, queue, later, rfl⟩
  | goOn found | finish found => simp [none] at found

theorem idle (move : w.Background new w') (idle : w.registry.tasks = []) :
    new = [] ∧ w'.registry.tasks = [] := by
  obtain ⟨none, _, _, -, rfl⟩ := move.of_idle idle
  exact ⟨none, idle⟩

end Background

/-- The turn of a fragment. -/
theorem runTask_meanwhile (slot : Nat) (w : EventLoop) : ∃ new, w.Meanwhile new (w.runTask slot) := by
  unfold runTask
  split
  · exact ⟨[], .refl w⟩
  · rename_i work found
    obtain ⟨handed, steps⟩ := work.poll_steps w
    split
    rename_i left w' polled
    rw [polled] at steps
    have went := Meanwhile.single (.goOn found steps)
    split
    · rename_i item ended
      have kept := Registry.task?_keep (steps.task? found) left
      have finished := went.trans (.single (.finish kept ended))
      simp only [Registry.deliver_keep] at finished
      exact ⟨_, finished⟩
    · exact ⟨_, went⟩

/-- The turn of the fragment that was woken first. -/
theorem runNext_meanwhile (w : EventLoop) : ∃ new, w.Meanwhile new w.runNext := by
  unfold runNext
  split
  · exact ⟨[], .refl w⟩
  · rename_i slot rest _
    obtain ⟨new, turn⟩ := runTask_meanwhile slot { w with registry.queue := rest }
    exact ⟨new, .head (.pass (Nat.le_refl w.now) rest) turn⟩

/-- The turns of all woken fragments. -/
theorem runQueue_meanwhile (turns : Nat) (w : EventLoop) :
    ∃ new, w.Meanwhile new (w.runQueue turns) := by
  induction turns generalizing w with
  | zero => exact ⟨[], .refl w⟩
  | succ turns ih =>
    unfold runQueue
    split
    · exact ⟨[], .refl w⟩
    · obtain ⟨new, first⟩ := w.runNext_meanwhile
      obtain ⟨later, rest⟩ := ih w.runNext
      exact ⟨new ++ later, first.trans rest⟩

/-- The next instant is the limit, or the end of the first sleep to end if that is earlier. -/
theorem le_nextInstant_iff (w : EventLoop) {alarms : List Alarm} {limit instant : Nat} :
    instant ≤ w.nextInstant alarms limit ↔ instant ≤ limit ∧
      ∀ alarm ∈ alarms ++ w.registry.alarms, w.now < alarm.deadline → instant ≤ alarm.deadline := by
  unfold nextInstant
  generalize alarms ++ w.registry.alarms = alarms
  induction alarms generalizing limit with
  | nil => simp
  | cons alarm rest ih =>
    rw [List.map_cons, List.foldl_cons, ih, List.forall_mem_cons]
    split <;> rename_i isAhead
    · rw [Nat.le_min, and_assoc]
      simp only [isAhead, true_imp_iff]
    · simp only [isAhead, false_imp_iff, true_and]

/-- The next instant is not before the present one. -/
theorem now_le_nextInstant (w : EventLoop) (alarms : List Alarm) {limit : Nat}
    (ahead : w.now ≤ limit) : w.now ≤ w.nextInstant alarms limit :=
  w.le_nextInstant_iff.2 ⟨ahead, fun _ _ => Nat.le_of_lt⟩

/-- Time passes if it may. -/
theorem now_lt_nextInstant (w : EventLoop) (alarms : List Alarm) {limit : Nat}
    (ahead : w.now < limit) : w.now < w.nextInstant alarms limit :=
  w.le_nextInstant_iff.2 ⟨ahead, fun _ _ => id⟩

/-- The next instant is not after the end of a sleep that is running. -/
theorem nextInstant_le (w : EventLoop) {alarms : List Alarm} (limit : Nat) {alarm : Alarm}
    (isRunning : alarm ∈ alarms ++ w.registry.alarms) (ahead : w.now < alarm.deadline) :
    w.nextInstant alarms limit ≤ alarm.deadline :=
  (w.le_nextInstant_iff.1 (Nat.le_refl _)).2 alarm isRunning ahead

/-- Nor is it after the limit. -/
theorem nextInstant_le_limit (w : EventLoop) (alarms : List Alarm) (limit : Nat) :
    w.nextInstant alarms limit ≤ limit :=
  (w.le_nextInstant_iff.1 (Nat.le_refl _)).1

/-- Letting time pass. -/
theorem jump_background (w : EventLoop) (alarms : List Alarm) {limit : Nat} (ahead : w.now ≤ limit) :
    w.Background [] (w.jump alarms limit) :=
  .pass (w.now_le_nextInstant alarms ahead) _

/-! ### Waiting -/

/-- What the background keeps, any length of it keeps. -/
theorem Meanwhile.keeps {P : EventLoop → Prop} {w w' : EventLoop} {new : List Happening}
    (moves : w.Meanwhile new w') (start : P w)
    (background : ∀ {w new w'}, P w → Background w new w' → P w') : P w' := by
  induction moves with
  | refl => exact start
  | head move _ ih => exact ih (background start move)

theorem Meanwhile.closed {w w' : EventLoop} {new : List Happening} (moves : w.Meanwhile new w') :
    w'.registry.closed = w.registry.closed :=
  moves.keeps (P := fun v => v.registry.closed = w.registry.closed) rfl
    fun same move => move.closed.trans same

section

variable {σ α : Type} {what : Awaitable σ α} {P : σ → EventLoop → Prop}

/-- How waiting leaves off where everything keeps `P`: the last question was asked in a state with
    `P`, or waiting was given up in one. -/
def LeavesOff (what : Awaitable σ α) (P : σ → EventLoop → Prop) : Waited σ α × EventLoop → Prop
  | (.ready answer s, w) => ∃ last before, P last before ∧ what.poll last before = (.ready answer s, w)
  | (.expired s, w) => P s w
  | (.panicked message, w) =>
    ∃ last before, P last before ∧ what.poll last before = (.panicked message, w)

/-- What the last question brings about, or waiting in vain, waiting brings about. -/
theorem LeavesOff.brings {Q : EventLoop → Prop} {result : Waited σ α × EventLoop}
    (leaves : LeavesOff what P result) (asked : ∀ {s w}, P s w → Q (what.poll s w).2)
    (inVain : ∀ {s w}, P s w → Q w) : Q result.2 := by
  obtain ⟨waited, after⟩ := result
  cases waited with
  | expired s => exact inVain leaves
  | ready answer s | panicked message =>
    obtain ⟨last, before, kept, polled⟩ := leaves
    have brought := asked kept
    rwa [polled] at brought

/-- What the turns of fragments keep, the turns of all woken fragments keep. -/
theorem runQueue_keeps {P : EventLoop → Prop} (turns : Nat) {w : EventLoop} (start : P w)
    (turn : ∀ {w}, P w → P w.runNext) : P (w.runQueue turns) := by
  induction turns generalizing w with
  | zero => exact start
  | succ turns ih =>
    unfold runQueue
    split
    · exact start
    · exact ih (turn start)

/-- Waiting is asking, and then letting woken fragments go on, or letting time pass when there are none.
    What holds whenever the main task asks (`P`), and whenever it has asked in vain (`Q`), holds at the
    end. -/
theorem waitRounds_alternates {Q : σ → EventLoop → Prop} (turns limit rounds : Nat) {s : σ}
    {w : EventLoop} (start : P s w)
    (asked : ∀ {s w s' w'}, P s w → what.poll s w = (.pending s', w') → Q s' w')
    (turn : ∀ {s w}, Q s w → Q s w.runNext)
    (again : ∀ {s w}, Q s w → P s w)
    (pass : ∀ {s w}, Q s w → w.registry.queue = [] → w.now ≤ limit →
      P s (w.jump (what.alarms s) limit)) :
    LeavesOff what P (waitRounds what turns limit rounds s w) := by
  induction rounds generalizing s w with
  | zero => exact start
  | succ rounds ih =>
    rw [waitRounds]
    split <;> rename_i polled
    · exact ⟨s, w, start, polled⟩
    · exact ⟨s, w, start, polled⟩
    · rename_i next after
      -- It has been asked in vain, so others go on, or time passes when there are none.
      have inVain := asked start polled
      by_cases late : limit ≤ after.now
      · rw [if_pos late]
        exact again inVain
      · rw [if_neg late]
        split
        · rename_i idle
          exact ih (pass inVain (List.isEmpty_iff.1 idle) (Nat.le_of_not_le late))
        · exact ih (again (runQueue_keeps (P := Q next) turns inVain turn))

/-- What asking, the turns of woken fragments, and time that passes keep, waiting keeps. -/
theorem waitRounds_keeps (turns limit rounds : Nat) {s : σ} {w : EventLoop} (start : P s w)
    (asked : ∀ {s w s' w'}, P s w → what.poll s w = (.pending s', w') → P s' w')
    (turn : ∀ {s w}, P s w → P s w.runNext)
    (pass : ∀ {s w}, P s w → w.registry.queue = [] → w.now ≤ limit →
      P s (w.jump (what.alarms s) limit)) :
    LeavesOff what P (waitRounds what turns limit rounds s w) :=
  waitRounds_alternates turns limit rounds start asked turn id pass

/-- Waiting is asking and letting the background go on, in turns: what both keep, waiting keeps. -/
theorem waitRounds_induct (turns limit rounds : Nat) {s : σ} {w : EventLoop} (start : P s w)
    (asked : ∀ {s w s' w'}, P s w → what.poll s w = (.pending s', w') → P s' w')
    (background : ∀ {s w new w'}, P s w → Background w new w' → P s w') :
    LeavesOff what P (waitRounds what turns limit rounds s w) :=
  waitRounds_keeps turns limit rounds start asked
    (fun {s w} kept =>
      let ⟨_, turn⟩ := w.runNext_meanwhile
      turn.keeps (P := P s) kept background)
    fun kept _ ahead => background kept (jump_background _ _ ahead)

end

/-- While the reader sleeps, nothing but the background happens. -/
theorem sleep_keeps {P : EventLoop → Prop} (turns length : Nat) {w : EventLoop} (start : P w)
    (background : ∀ {w new w'}, P w → Background w new w' → P w') : P (w.sleep turns length) := by
  have kept : LeavesOff never (fun _ => P) (w.wait never turns (w.now + length) ()) :=
    waitRounds_induct turns _ _ start
      (fun kept polled => by
        simp only [never, Prod.mk.injEq] at polled
        exact polled.2 ▸ kept)
      background
  unfold sleep
  generalize w.wait never turns (w.now + length) () = result at kept
  match result, kept with
  | (.ready answer _, _), _ => exact answer.elim
  | (.expired _, _), kept => exact kept
  | (.panicked _, _), ⟨_, _, _, polled⟩ => simp [never] at polled

end EventLoop

/-! ### Waiting for a rendering -/

namespace Rendering

variable {r r' : Rendering} {w w' : EventLoop}

/-- Asking a rendering that is waited for is letting it go on. -/
theorem awaitable_poll_snd (r : Rendering) (w : EventLoop) :
    (awaitable.poll r w).2 = (r.poll w).2 := by
  simp only [awaitable]
  split <;> simp_all

theorem poll_of_pending (asked : awaitable.poll r w = (.pending r', w')) : r.poll w = (r', w') := by
  simp only [awaitable] at asked
  split at asked <;> simp_all

theorem poll_of_ready {text : String} (asked : awaitable.poll r w = (.ready (.ok text) r', w')) :
    r.poll w = (.done text, w') := by
  simp only [awaitable] at asked
  split at asked <;> simp_all

end Rendering

end ProgressiveHtml
