import ProgressiveHtml.Proofs.Document.Consumption

namespace ProgressiveHtml

/-!
# Documents — contents while a document is read

While a document is read without pauses nothing is overslept: a value that is waited for settles when
its own delays are over, wherever it is waited for and whatever else goes on.  So every content is
either untouched or on plan.

* `Rendering.Untouched` — nothing has happened to a content that is not used up;
* `Rendering.OnPlan` — what has happened to a content and what is planned for it is what was due;
* `Rendering.Follows` — all contents are one or the other;
* `Rendering.Follows.goOn`, `Rendering.Follows.turn`, `Rendering.Follows.jump` — and stay so when
  renderings go on, when a fragment has its turn and when time passes;
* `Document.Consumes.follows` — this is so at any time of reading a document.
-/

open Rendering

/-! ### Fragments on their way -/

namespace FragmentTask

/-- Fragments that hold to the plan of a content.  What has been woken may be due now, all else is due
    later. -/
def Hold (cell now : Nat) (queue : List Nat) (tasks : List FragmentTask) : Prop :=
  ∀ task ∈ tasks, task.work.Holds cell (if task.slot ∈ queue then now else now + 1)

variable {cell now : Nat} {queue queue' : List Nat} {tasks new : List FragmentTask}

/-- What is not due before the next instant holds to the plan, woken or not. -/
theorem Hold.of_succ (later : ∀ task ∈ tasks, task.work.Holds cell (now + 1)) :
    Hold cell now queue tasks := by
  intro task member
  split
  · exact (later task member).of_succ
  · exact later task member

/-- What has nothing to do with a content holds to any plan of it. -/
theorem Hold.of_apart (apart : ∀ task ∈ tasks, task.work.Treats cell .apart) :
    Hold cell now queue tasks :=
  .of_succ fun task member => .apart (apart task member)

/-- More fragments have been woken. -/
theorem Hold.wake (hold : Hold cell now queue tasks)
    (more : ∀ task ∈ tasks, task.slot ∈ queue → task.slot ∈ queue') :
    Hold cell now queue' tasks := by
  intro task member
  have holds := hold task member
  by_cases before : task.slot ∈ queue
  · rw [if_pos before] at holds
    rwa [if_pos (more task member before)]
  · rw [if_neg before] at holds
    split
    · exact holds.of_succ
    · exact holds

theorem Hold.append (hold : Hold cell now queue tasks) (others : Hold cell now queue new) :
    Hold cell now queue (tasks ++ new) :=
  fun task member => (List.mem_append.1 member).elim (hold task) (others task)

end FragmentTask

namespace Rendering

/-! ### How a content stands -/

/-- A content that is not used up: nothing has happened to it since `base`, and no rendering has to do
    with it yet. -/
structure Untouched (cell : Nat) (base : EventLoop) (parts : List Rendering) (w : EventLoop) :
    Prop where
  ofParts : ∀ r ∈ parts, r.Treats cell .apart
  ofTasks : ∀ task ∈ w.registry.tasks, task.work.Treats cell .apart
  moments : w.timeline.moments cell = base.timeline.moments cell
  slots : ∃ given, base.Places given w

/-- A content that is used up: what has happened to it since `base` and what is planned for it is what
    was due.  Nothing planned for the renderings is due before the instant `ahead`. -/
structure OnPlan (cell : Nat) (base : EventLoop) (due : Multiset (Nat × Moment)) (ahead : Nat)
    (parts : List Rendering) (w : EventLoop) : Prop where
  used : cell ∈ w.used
  ofParts : ∀ r ∈ parts, r.Holds cell ahead
  ofTasks : FragmentTask.Hold cell w.now w.registry.queue w.registry.tasks
  proceeds : base.Proceeds cell due
    (planOfAll cell w.now parts + FragmentTask.planOfAll cell w.now w.registry.tasks) w

variable {cell : Nat} {base : EventLoop} {due dueNow : Multiset (Nat × Moment)} {ahead : Nat}
  {parts parts' : List Rendering} {w w' : EventLoop}

/-- Renderings have gone on, and what was due of them has happened or is left. -/
theorem OnPlan.of_balance (holds : ∀ r ∈ parts', r.Holds cell (w.now + 1))
    (balance : w.Balance cell dueNow (planOfAll cell w.now parts') w') (used : cell ∈ w'.used)
    (tasks : FragmentTask.Hold cell w.now w.registry.queue w.registry.tasks)
    (proceeds : base.Proceeds cell due
      (dueNow + FragmentTask.planOfAll cell w.now w.registry.tasks) w) :
    OnPlan cell base due (w.now + 1) parts' w' := by
  obtain ⟨atOnce, new, sameTasks, newHold, proceedsNow⟩ := balance
  refine ⟨used, holds, ?_, ?_⟩
  · rw [atOnce.now, sameTasks]
    exact (tasks.wake fun task _ isWoken => atOnce.queue isWoken).append (.of_succ newHold)
  · have all := proceeds.trans (proceedsNow.add _)
    rwa [atOnce.now, sameTasks, FragmentTask.planOfAll_append, ← add_assoc, add_right_comm]

/-- All that has to do with a content begins when it is used up. -/
theorem Untouched.onPlan (untouched : Untouched cell base parts w)
    (holds : ∀ r ∈ parts', r.Holds cell (w.now + 1))
    (balance : w.Balance cell due (planOfAll cell w.now parts') w') (used : cell ∈ w'.used) :
    OnPlan cell base due (w.now + 1) parts' w' := by
  refine .of_balance holds balance used (.of_apart untouched.ofTasks) ?_
  rw [FragmentTask.planOfAll_eq_zero untouched.ofTasks, add_zero]
  exact .of_still untouched.moments

/-- Nothing has happened to a content that still is not used up. -/
theorem Untouched.passes (untouched : Untouched cell base parts w)
    (treats : ∀ r ∈ parts', r.Treats cell .apart) (passes : w.Passes cell 0 w') :
    Untouched cell base parts' w' where
  ofParts := treats
  ofTasks := by
    obtain ⟨new, same, apart⟩ := passes.tasks
    intro task member
    rw [same] at member
    exact (List.mem_append.1 member).elim (untouched.ofTasks task) (apart task)
  moments := by rw [passes.moments, add_zero, untouched.moments]
  slots := by
    obtain ⟨given, places⟩ := untouched.slots
    obtain ⟨more, placesLater⟩ := passes.slots
    exact ⟨given ++ more, places.trans placesLater⟩

/-! ### How all contents stand -/

/-- The value of a content begins when the content is used up, and then `due` is what is to happen. -/
def Begins (cell : Nat) (due : Multiset (Nat × Moment)) (value : Rendering) (v : EventLoop) : Prop :=
  value.Treats cell .claimed → value.TakenIn { v with used := cell :: v.used } →
    Keeps cell due value { v with used := cell :: v.used }

/-- How all contents stand after some renderings have been asked: those that are not used up are
    untouched, and the others are on plan. -/
structure Follows (base : EventLoop) (asked : List (Rendering × EventLoop)) (ahead : Nat)
    (parts : List Rendering) (w : EventLoop) : Prop where
  untouched : ∀ cell ∉ w.used, Untouched cell base parts w
  onPlan : ∀ cell value v due, (claim cell value, v) ∈ asked → Begins cell due value v →
    OnPlan cell base due ahead parts w

namespace Follows

variable {asked : List (Rendering × EventLoop)}

/-- Renderings go on. -/
theorem goOn (follows : Follows base asked w.now parts w) (prompt settled : Bool)
    (taken : ∀ r ∈ parts, r.TakenIn w) (calm : Unfailing (askedOfAll prompt settled parts w)) :
    Follows base (asked ++ askedOfAll prompt settled parts w) (w.now + 1)
      (pollAll prompt settled parts w).1 (pollAll prompt settled parts w).2 := by
  have atOnce := pollAll_atOnce prompt settled parts w
  constructor
  case untouched =>
    intro cell unused
    have untouched := follows.untouched cell fun used => unused (atOnce.used used)
    obtain ⟨treats, passes⟩ := pollAll_apart prompt settled untouched.ofParts
      (fun part member => (untouched.ofParts part member).polls) taken (.inr unused)
    exact untouched.passes treats passes
  case onPlan =>
    intro cell value v due isAsked begins
    -- A content that had been used up stays on its plan, and one that is used up now was untouched so
    -- far.
    obtain before | now := List.mem_append.1 isAsked
    · obtain ⟨used, ofParts, ofTasks, proceeds⟩ := follows.onPlan cell value v due before begins
      obtain ⟨holds, balance⟩ := keepsAll prompt settled
        (fun part member => (ofParts part member).keepsPlan) used taken calm
      exact .of_balance holds balance (atOnce.used used) ofTasks proceeds
    · have fresh := calm.notMem_used now
      have unused : cell ∉ w.used := fun used =>
        fresh ((askedOfAll_atOnce prompt settled parts w now).used used)
      have untouched := follows.untouched cell unused
      obtain ⟨holds, balance, used⟩ := evaluatesAll prompt settled untouched.ofParts
        (fun part member => (untouched.ofParts part member).evaluates fresh begins) fresh now taken
        calm
      exact untouched.onPlan holds balance used

/-- Renderings that are over are passed, and nothing else happens that concerns contents. -/
theorem leave {passed rest : List Rendering} (follows : Follows base asked ahead (passed ++ rest) w)
    (ended : ∀ r ∈ passed, r.isOver) (aside : w.Aside w') : Follows base asked ahead rest w' where
  untouched cell unused := by
    obtain ⟨ofParts, ofTasks, moments, slots⟩ := follows.untouched cell (aside.used ▸ unused)
    refine ⟨fun r member => ofParts r (List.mem_append_right _ member), ?_, ?_, ?_⟩
    · rwa [aside.tasks]
    · rw [aside.moments, moments]
    · obtain ⟨given, places⟩ := slots
      exact ⟨_, places.trans aside.slots⟩
  onPlan cell value v due isAsked begins := by
    obtain ⟨used, ofParts, ofTasks, proceeds⟩ := follows.onPlan cell value v due isAsked begins
    have none : planOfAll cell w.now passed = 0 :=
      planOfAll_eq_zero fun r member => plan_of_isOver (ended r member)
    rw [planOfAll_append, none, zero_add] at proceeds
    refine ⟨aside.used ▸ used, fun r member => ofParts r (List.mem_append_right _ member), ?_, ?_⟩
    · rw [aside.now, aside.tasks]
      exact ofTasks.wake aside.queue
    · rw [aside.now, aside.tasks]
      exact proceeds.trans (.of_still (aside.moments cell))

/-- Something happens that does not concern contents. -/
theorem aside (follows : Follows base asked ahead parts w) (aside : w.Aside w') :
    Follows base asked ahead parts w' := by
  have all : Follows base asked ahead ([] ++ parts) w := follows
  exact all.leave (fun r none => absurd none List.not_mem_nil) aside

end Follows

end Rendering

/-! ### The turn of a fragment -/

namespace Rendering

section

variable {cell : Nat} {base : EventLoop} {due dueNow : Multiset (Nat × Moment)}
  {parts : List Rendering} {w : EventLoop} {slot : Nat} {rest : List Nat} {work : Rendering}
  {before after : List FragmentTask}

/-- A fragment has had its turn, and what was due of it has happened or is left. -/
theorem OnPlan.of_turn (queue : w.registry.queue = slot :: rest)
    (split : w.registry.tasks = before ++ ⟨slot, work⟩ :: after)
    (once : ((work.poll (w.woken rest)).2.registry.tasks.map (·.slot)).Nodup)
    (keeps : Keeps cell dueNow work (w.woken rest)) (ofParts : ∀ r ∈ parts, r.Holds cell w.now)
    (ofOthers : FragmentTask.Hold cell w.now w.registry.queue (before ++ after))
    (proceeds : base.Proceeds cell due (dueNow + (planOfAll cell w.now parts +
      FragmentTask.planOfAll cell w.now (before ++ after))) w) :
    OnPlan cell base due w.now parts (w.afterTurn slot rest work) := by
  obtain ⟨holds, ⟨atOnce, new, added, newHold, proceedsNow⟩, used⟩ := keeps
  have unmoved : (w.woken rest).now = w.now := rfl
  rw [unmoved] at holds newHold proceedsNow
  obtain ⟨apart, kept, left, ending⟩ := EventLoop.tasks_afterTurn split once added
  have now : (w.afterTurn slot rest work).now = w.now := atOnce.now
  have woken : (w.afterTurn slot rest work).registry.queue =
      (work.poll (w.woken rest)).2.registry.queue :=
    Registry.conclude_queue _ slot _
  -- The task keeps its place, unless it is over: then nothing of it is planned any more.
  have ofKept : (∀ task ∈ kept, task.work.Holds cell (w.now + 1)) ∧
      FragmentTask.planOfAll cell w.now kept = (work.poll (w.woken rest)).1.plan cell w.now := by
    obtain ⟨rfl, -⟩ | ⟨rfl, ended⟩ := ending
    · exact ⟨by simpa using holds, by simp [FragmentTask.planOfAll, planOfAll]⟩
    · exact ⟨by simp, (plan_of_isOver ended).symm⟩
  have others := ofOthers.wake fun task member isWoken =>
    atOnce.queue ((List.mem_cons.1 (queue ▸ isWoken)).resolve_left (apart task member))
  refine ⟨used, ofParts, ?_, ?_⟩
  · rw [now, woken, left]
    intro task member
    simp only [List.mem_append] at member
    obtain isBefore | isKept | isAfter | isNew := member
    · exact others task (List.mem_append_left _ isBefore)
    · exact FragmentTask.Hold.of_succ ofKept.1 task isKept
    · exact others task (List.mem_append_right _ isAfter)
    · exact FragmentTask.Hold.of_succ newHold task isNew
  · have turned : w.Proceeds cell dueNow ((work.poll (w.woken rest)).1.plan cell w.now +
        FragmentTask.planOfAll cell w.now new) (w.afterTurn slot rest work) := proceedsNow
    have all := proceeds.trans (turned.add _)
    rw [now, left]
    simp only [FragmentTask.planOfAll_append, ofKept.2] at all ⊢
    convert all using 1
    abel

/-- A fragment has had its turn, and nothing has happened to a content that still is not used up. -/
theorem Untouched.of_turn (split : w.registry.tasks = before ++ ⟨slot, work⟩ :: after)
    (once : ((work.poll (w.woken rest)).2.registry.tasks.map (·.slot)).Nodup)
    (untouched : Untouched cell base parts w)
    (treats : (work.poll (w.woken rest)).1.Treats cell .apart)
    (passes : (w.woken rest).Passes cell 0 (work.poll (w.woken rest)).2) :
    Untouched cell base parts (w.afterTurn slot rest work) := by
  obtain ⟨given, places⟩ := untouched.slots
  have still : Untouched cell base parts (w.woken rest) :=
    { untouched with slots := ⟨given, places.still rfl rfl⟩ }
  obtain ⟨-, ofTasks, moments, given, places⟩ := still.passes untouched.ofParts passes
  refine ⟨untouched.ofParts, ?_, moments, given,
    places.still rfl (Registry.conclude_next _ slot _)⟩
  -- There are the tasks in front of it and behind it, what is left of itself, and what it has handed
  -- in.
  obtain ⟨new, added, apartNew⟩ := passes.tasks
  obtain ⟨-, kept, left, ending⟩ := EventLoop.tasks_afterTurn split once added
  rw [added] at ofTasks
  have apartOld : ∀ task ∈ w.registry.tasks, task.work.Treats cell .apart := untouched.ofTasks
  rw [split] at apartOld
  rw [left]
  intro task member
  simp only [List.mem_append] at member
  obtain isBefore | isKept | isAfter | isNew := member
  · exact apartOld task (List.mem_append_left _ isBefore)
  · obtain ⟨rfl, -⟩ | ⟨rfl, -⟩ := ending
    · obtain rfl := List.mem_singleton.1 isKept
      exact treats
    · cases isKept
  · exact apartOld task (List.mem_append_right _ (List.mem_cons_of_mem _ isAfter))
  · exact apartNew task isNew

end

namespace Follows

variable {base : EventLoop} {asked : List (Rendering × EventLoop)} {parts : List Rendering}
  {w : EventLoop} {h : List Happening}

/-- The fragment that was woken first has its turn. -/
theorem turn (follows : Follows base asked w.now parts w) (reached : EventLoop.Reached h w)
    (calm : Unfailing w.askedNext) :
    Follows base (asked ++ w.askedNext) w.now parts w.runNext := by
  obtain ⟨same, asks⟩ | ⟨slot, rest, queue, ⟨absent, same, asks⟩ | ⟨work, found, asks, same⟩⟩ :=
    w.runNext_cases
  · rw [same, asks, List.append_nil]
    exact follows
  · rw [same, asks, List.append_nil]
    refine follows.aside ⟨rfl, rfl, rfl, fun task here isWoken => ?_, fun _ => rfl,
      .nothing rfl rfl rfl⟩
    -- The slot that was woken is that of no fragment on its way.
    rw [queue] at isWoken
    refine (List.mem_cons.1 isWoken).resolve_left fun same => ?_
    have found := List.find?_eq_none.1 (Option.map_eq_none_iff.1 absent) task here
    simp [same] at found
  · rw [same, asks]
    rw [asks] at calm
    have here := Registry.mem_of_task? found
    obtain ⟨before, after, split⟩ := List.append_of_mem here
    have taken : work.TakenIn (w.woken rest) := .inr (reached.accounts.open_of_task here)
    have once : ((work.poll (w.woken rest)).2.registry.tasks.map (·.slot)).Nodup := by
      obtain ⟨handed, steps⟩ := work.poll_steps (w.woken rest)
      exact ((reached.background (.pass (Nat.le_refl w.now) rest)).steps steps).accounts.tasks_nodup
    have atOnce := work.poll_atOnce (w.woken rest)
    constructor
    case untouched =>
      intro cell unused
      have untouched := follows.untouched cell fun used => unused (atOnce.used used)
      obtain ⟨treats, passes⟩ :=
        (untouched.ofTasks _ here).polls (w.woken rest) taken (.inr unused)
      exact .of_turn split once untouched treats passes
    case onPlan =>
      intro cell value v due isAsked begins
      have inside : ∀ task ∈ before ++ after, task ∈ w.registry.tasks := by
        intro task member
        rw [split]
        exact List.mem_append.2 ((List.mem_append.1 member).imp_right (List.mem_cons_of_mem _))
      obtain earlier | now := List.mem_append.1 isAsked
      · obtain ⟨used, ofParts, ofTasks, proceeds⟩ :=
          follows.onPlan cell value v due earlier begins
        have holds := ofTasks _ here
        rw [if_pos (queue ▸ List.mem_cons_self)] at holds
        have keeps := holds.keepsPlan (w.woken rest) rfl used taken calm
        refine .of_turn queue split once keeps ofParts
          (fun task member => ofTasks task (inside task member)) ?_
        rw [split] at proceeds
        simp only [FragmentTask.planOfAll_append, FragmentTask.planOfAll_cons] at proceeds ⊢
        convert proceeds using 1
        abel
      · have fresh := calm.notMem_used now
        have unused : cell ∉ w.used := fun used =>
          fresh ((work.asked_atOnce (w.woken rest) now).used used)
        have untouched := follows.untouched cell unused
        have keeps := (untouched.ofTasks _ here).evaluates fresh begins (w.woken rest) now taken calm
        have others : ∀ task ∈ before ++ after, task.work.Treats cell .apart :=
          fun task member => untouched.ofTasks task (inside task member)
        refine .of_turn queue split once keeps
          (fun r member => .apart (untouched.ofParts r member)) (.of_apart others) ?_
        rw [FragmentTask.planOfAll_eq_zero others,
          planOfAll_eq_zero fun r member => (untouched.ofParts r member).plan_eq_zero rfl,
          add_zero, add_zero]
        exact .of_still untouched.moments

end Follows

/-! ### Time passes -/

section

variable {cell : Nat} {base : EventLoop} {due : Multiset (Nat × Moment)} {parts : List Rendering}
  {w : EventLoop} {alarms : List Alarm} {limit : Nat}

/-- Time passes only as far as nothing that is planned is overslept. -/
theorem OnPlan.jump (onPlan : OnPlan cell base due (w.now + 1) parts w)
    (idle : w.registry.queue = [])
    (complete : ∀ r ∈ parts, ∀ alarm ∈ r.alarms, alarm ∈ alarms) :
    OnPlan cell base due (w.jump alarms limit).now parts (w.jump alarms limit) := by
  obtain ⟨used, ofParts, ofTasks, proceeds⟩ := onPlan
  -- Whatever is waited for, the loop waits for it too, so that no sleep is passed by.
  have stops {alarm : Alarm} (isRunning : alarm ∈ alarms ++ w.registry.alarms)
      (later : w.now + 1 ≤ alarm.deadline) : (w.jump alarms limit).now ≤ alarm.deadline :=
    w.nextInstant_le limit isRunning later
  have ofTasksLater : ∀ task ∈ w.registry.tasks, task.work.Holds cell (w.now + 1) := by
    intro task member
    have holds := ofTasks task member
    rwa [idle, if_neg List.not_mem_nil] at holds
  have registered {task : FragmentTask} (member : task ∈ w.registry.tasks) {alarm : Alarm}
      (isRunning : alarm ∈ task.work.alarms) : alarm ∈ alarms ++ w.registry.alarms :=
    List.mem_append_right _ (List.mem_flatMap.2 ⟨task, member, isRunning⟩)
  refine ⟨used, fun r member => ?_, fun task member => ?_, ?_⟩
  · exact (ofParts r member).pass fun alarm isRunning =>
      stops (List.mem_append_left _ (complete r member alarm isRunning))
  · split
    · exact (ofTasksLater task member).pass fun alarm isRunning =>
        stops (registered member isRunning)
    · -- A task that is not woken has no sleep that is over.
      rename_i asleep
      refine (ofTasksLater task member).pass fun alarm isRunning _ => ?_
      exact Nat.lt_of_not_le fun ended => asleep (Registry.mem_due member isRunning ended)
  · have sameParts : planOfAll cell (w.jump alarms limit).now parts = planOfAll cell w.now parts :=
      planOfAll_congr fun r member => (ofParts r member).of_succ.plan_eq _
    have sameTasks : FragmentTask.planOfAll cell (w.jump alarms limit).now w.registry.tasks =
        FragmentTask.planOfAll cell w.now w.registry.tasks := by
      refine planOfAll_congr fun part member => ?_
      obtain ⟨task, isTask, rfl⟩ := List.mem_map.1 member
      exact (ofTasksLater task isTask).of_succ.plan_eq _
    rw [← sameParts, ← sameTasks] at proceeds
    exact proceeds

/-- Time passes. -/
theorem Follows.jump {asked : List (Rendering × EventLoop)}
    (follows : Follows base asked (w.now + 1) parts w) (idle : w.registry.queue = [])
    (complete : ∀ r ∈ parts, ∀ alarm ∈ r.alarms, alarm ∈ alarms) :
    Follows base asked (w.jump alarms limit).now parts (w.jump alarms limit) where
  untouched cell unused :=
    let untouched := follows.untouched cell unused
    { untouched with slots := untouched.slots.imp fun _ places => places.still rfl rfl }
  onPlan cell value v due isAsked begins :=
    (follows.onPlan cell value v due isAsked begins).jump idle complete

/-- What is not due before the next instant is not due now. -/
theorem Follows.of_succ {asked : List (Rendering × EventLoop)}
    (follows : Follows base asked (w.now + 1) parts w) : Follows base asked w.now parts w where
  untouched := follows.untouched
  onPlan cell value v due isAsked begins :=
    let onPlan := follows.onPlan cell value v due isAsked begins
    { onPlan with ofParts := fun r member => (onPlan.ofParts r member).of_succ }

end

end Rendering

/-! ### Reading a document -/

namespace Document

variable {settings : Settings} {body : Node} {w₀ w : EventLoop} {d next : Document}
  {asked : List (Rendering × EventLoop)} {base : EventLoop}

/-- All contents of a document at some time of reading it. -/
def Follows (base : EventLoop) (asked : List (Rendering × EventLoop)) (d : Document)
    (w : EventLoop) : Prop :=
  Rendering.Follows base asked w.now (Piece.renderings d.stream.pieces) w

/-- The document is asked for a chunk: nothing that is left is due at this instant. -/
theorem Follows.poll (follows : Follows base asked d w) (inOrder : d.InOrder w)
    (calm : Unfailing (d.asked w)) (onward : (d.poll w).1.next? = some next) :
    Rendering.Follows base (asked ++ d.asked w) ((d.poll w).2.now + 1)
      (Piece.renderings next.stream.pieces) (d.poll w).2 := by
  have sound : d.stream.finished → d.stream.pieces = [] := fun ended => (inOrder.ended ended).1
  obtain ⟨h, reached⟩ := inOrder.reached
  let v := w.behalf (journalName d.requestId)
  -- A stream that has ended has no pieces left, and nothing is asked.
  have asks : d.asked w = askedOfAll false false (Piece.renderings d.stream.pieces) v := by
    unfold Document.asked TemplateStream.asked
    split
    · rename_i ended
      rw [sound ended]
      rfl
    · rfl
  -- The registry says that it has finished only when no task is left.
  have shut : (d.went w).2.registry.drain.1 = .finished → (d.went w).2.registry.tasks = [] := by
    obtain ⟨handed, steps⟩ := pollAll_steps false false [] (Piece.renderings d.stream.pieces)
      (fun _ => .done "") v
    have reached : EventLoop.Reached h v := reached.elsewhere rfl
    exact (reached.steps steps).idle_of_drain
  obtain ⟨aside, passed⟩ := d.poll_leaves w sound calm shut
  obtain ⟨passed, split, ended⟩ := passed next onward
  have before : Rendering.Follows base asked v.now (Piece.renderings d.stream.pieces) v :=
    Rendering.Follows.aside follows (.timeline w rfl rfl)
  rw [asks] at calm ⊢
  have after : Rendering.Follows base
      (asked ++ askedOfAll false false (Piece.renderings d.stream.pieces) v) (v.now + 1)
      (d.went w).1 (d.went w).2 :=
    before.goOn false false inOrder.taken calm
  have same : (d.poll w).2.now = v.now := aside.now.trans (pollAll_now false false _ v)
  rw [same]
  rw [split] at after
  exact after.leave ended aside

/-- The sleeps that the renderings of a stream wait for are among those that the stream waits for. -/
theorem alarms_of_mem {pieces : List Piece} {r : Rendering} (member : r ∈ Piece.renderings pieces) :
    ∀ alarm ∈ r.alarms, alarm ∈ pieces.flatMap Piece.alarms := fun _ isRunning =>
  List.mem_flatMap.2 ⟨_, Piece.mem_renderings.1 member, isRunning⟩

/-- The renderings among the sources of a document treat every content in the right way. -/
theorem treats_of_source (cell : Nat) {name : String} {r : Rendering}
    (found : Named.get? (sources settings body) name = some (.rendering r)) :
    r.Treats cell .apart := by
  obtain rfl | ⟨node, -, rfl⟩ := rendering_of_source found
  · exact (Built.node body).treats_rendering cell _
  · exact (Built.node node).treats_rendering cell _

/-- At the beginning of a document nothing has happened to any content. -/
theorem start_follows (bodyFirst : settings.compiled.BodyFirst) (body : Node)
    (fresh : w₀.registry = {}) :
    Follows (start settings body w₀).2 [] (start settings body w₀).1
      (start settings body w₀).2 := by
  have empty : (start settings body w₀).2.registry = {} :=
    (start_plays bodyFirst body w₀).2.2.trans fresh
  constructor
  case untouched =>
    intro cell _
    refine ⟨fun r member => ?_, by simp [empty], rfl, [], .nothing rfl rfl rfl⟩
    obtain ⟨name, -, found⟩ := mem_assign member
    exact treats_of_source cell found
  case onPlan =>
    intro cell value v due isAsked
    cases isAsked

/-- At any time of reading a document in which no rendering fails, contents are untouched or on plan. -/
theorem Consumes.follows (bodyFirst : settings.compiled.BodyFirst) (fresh : w₀.registry = {})
    (consumes : Consumes (Document.start settings body w₀).1 (Document.start settings body w₀).2
      asked d w) (calm : Unfailing asked) :
    Follows (Document.start settings body w₀).2 asked d w := by
  induction consumes with
  | start => exact start_follows bodyFirst body fresh
  | poll consumes onward ih =>
    rw [Unfailing.unfailing_append] at calm
    have inOrder := (consumes.undisturbed bodyFirst fresh calm.1).inOrder bodyFirst fresh
    exact ((ih calm.1).poll inOrder calm.2 onward).of_succ
  | @turn asked d w consumes ih =>
    rw [Unfailing.unfailing_append] at calm
    have inOrder := (consumes.undisturbed bodyFirst fresh calm.1).inOrder bodyFirst fresh
    obtain ⟨h, reached⟩ := inOrder.reached
    have turned := Rendering.Follows.turn (ih calm.1) reached calm.2
    rwa [← w.runNext_now] at turned
  | pass consumes waits idle _ ih =>
    rw [Unfailing.unfailing_append] at calm
    have inOrder := (consumes.undisturbed bodyFirst fresh calm.1).inOrder bodyFirst fresh
    have polled := (ih calm.1).poll inOrder calm.2 (by rw [waits]; rfl)
    exact polled.jump idle fun r member => alarms_of_mem member

end Document

end ProgressiveHtml
