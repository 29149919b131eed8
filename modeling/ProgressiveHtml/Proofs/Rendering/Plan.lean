import ProgressiveHtml.Proofs.Rendering.Beside
import Mathlib.Tactic.Abel

namespace ProgressiveHtml

/-!
# Renderings — the plan of one content

Once the value of a content has been asked for, it is known what is still to happen to the content,
and when: this is the plan.  The value may be in a rendering or in a fragment that was handed in.

* `Pace.plan`, `Race.plan` — what is to happen to a content whose value is on its way;
* `Rendering.plan`, `Rendering.Holds` — the plan of a rendering, and renderings that hold to it;
* `Rendering.Holds.pass` — a plan can be held to as long as no sleep is overslept;
* `EventLoop.Proceeds`, `EventLoop.Balance` — what has happened and what is left, together, is what
  was due.
-/

/-- What is to happen to a content whose value settles when it is due. -/
def Pace.plan (now : Nat) (shown : Option Moment) (p : Pace) : Multiset (Nat × Moment) :=
  match p.due? now with
  | none => 0
  | some time => {(time, .settled)} + Moment.at time shown

/-- What is to happen to a content whose value has a timeout. -/
def Race.plan (now : Nat) (shown : Option Moment) (r : Race) : Multiset (Nat × Moment) :=
  (if (r.pace.due? now).any (· ≤ r.timer.endsAt now) then 0
    else {(r.timer.endsAt now, .fallback)}) + r.pace.plan now shown

namespace Rendering

variable (cell now : Nat)

mutual

/-- What is to happen to a content whose value a rendering is waiting for. -/
def plan : Rendering → Multiset (Nat × Moment)
  | wait pace next =>
    if pace.label.cell = some cell then pace.plan now (next.shown cell) else 0
  | race r inTime _ =>
    if r.pace.label.cell = some cell then r.plan now (inTime.shown cell) else 0
  | join parts _ => planOfAll parts
  | attempt body _ => body.plan
  | _ => 0

/-- The plan of siblings. -/
def planOfAll : List Rendering → Multiset (Nat × Moment)
  | [] => 0
  | part :: rest => part.plan + planOfAll rest

end

/-- A value has been asked for, and so has its timer, if it has one.  Neither of them is due before an
    instant. -/
def Awaits : Rendering → Prop
  | wait pace _ => pace.Awaits now
  | race r _ _ => r.pace.Awaits now ∧ Sleep.Running now [r.timer]
  | _ => False

/-- Renderings that hold to the plan of a content: its value, if it is in there, is on its way and not
    due before an instant. -/
inductive Holds : Rendering → Prop
  | apart {r : Rendering} (treats : r.Treats cell .apart) : Holds r
  | own {r : Rendering} (treats : r.Treats cell .claimed) (awaits : r.Awaits now) : Holds r
  | join {parts : List Rendering} {next : List String → Rendering}
      (ofParts : ∀ part ∈ parts, Holds part) (onward : ∀ texts, (next texts).Treats cell .apart) :
      Holds (join parts next)
  | attempt {body : Rendering} {next : Except RenderError String → Rendering}
      (ofBody : Holds body) (onward : ∀ result, (next result).Treats cell .apart) :
      Holds (attempt body next)

variable {cell now} {r : Rendering}

theorem planOfAll_eq_zero {parts : List Rendering} (none : ∀ part ∈ parts, part.plan cell now = 0) :
    planOfAll cell now parts = 0 := by
  induction parts with
  | nil => rfl
  | cons part rest ih =>
    rw [planOfAll, none part List.mem_cons_self,
      ih fun other member => none other (List.mem_cons_of_mem _ member), add_zero]

/-- Apart from a content nothing is planned for it. -/
theorem Treats.plan_eq_zero {stage : Stage} (treats : r.Treats cell stage) :
    stage = .apart → r.plan cell now = 0 := by
  induction treats with
  | wait other => simp [plan, other]
  | race other => simp [plan, other]
  | join _ _ ihParts => exact fun _ => planOfAll_eq_zero fun part member => ihParts part member rfl
  | attempt _ _ ihBody => exact fun _ => ihBody rfl
  | ownWait | ownRace | nothing | report | shows | handIn | place => simp
  | _ => exact fun _ => rfl

/-- When a rendering is over nothing is planned for it. -/
theorem plan_of_isOver (ended : r.isOver) : r.plan cell now = 0 := by
  cases r with
  | done | failed | panicked => rfl
  | _ => simp [isOver] at ended

/-- Nothing is planned for what has been rendered. -/
theorem planOfAll_done (texts : List String) : planOfAll cell now (texts.map done) = 0 :=
  planOfAll_eq_zero fun part member => by
    obtain ⟨text, -, rfl⟩ := List.mem_map.1 member
    rfl

theorem planOfAll_append (parts later : List Rendering) :
    planOfAll cell now (parts ++ later) = planOfAll cell now parts + planOfAll cell now later := by
  induction parts with
  | nil => rw [List.nil_append, planOfAll, zero_add]
  | cons part rest ih => rw [List.cons_append, planOfAll, planOfAll, ih, add_assoc]

/-! ### The plan while time passes -/

/-- What is planned does not depend on when the rendering is asked. -/
theorem Awaits.plan_eq (awaits : r.Awaits now) (other : Nat) :
    r.plan cell other = r.plan cell now := by
  cases r with
  | wait pace next =>
    have same : pace.due? other = pace.due? now := Pace.Awaits.due_eq awaits other
    simp only [plan, Pace.plan, same]
  | race r inTime late =>
    have same : r.pace.due? other = r.pace.due? now := awaits.1.due_eq other
    have timer : r.timer.endsAt other = r.timer.endsAt now := (awaits.2.overAll_eq other).1
    simp only [plan, Race.plan, Pace.plan, same, timer]
  | _ => exact awaits.elim

/-- Nothing is planned for an instant that has passed. -/
theorem Awaits.le_plan (awaits : r.Awaits now) : ∀ e ∈ r.plan cell now, now ≤ e.1 := by
  have settles {pace : Pace} {shown : Option Moment} (awaits : pace.Awaits now) :
      ∀ e ∈ pace.plan now shown, now ≤ e.1 := by
    intro e member
    unfold Pace.plan at member
    split at member
    · cases Multiset.notMem_zero _ member
    · rename_i isDue
      have later := awaits.le_due isDue
      cases shown <;> simp at member
      · exact member ▸ later
      · obtain rfl | rfl := member <;> exact later
  intro e member
  cases r with
  | wait pace next =>
    rw [plan] at member
    split at member
    · exact settles awaits e member
    · cases Multiset.notMem_zero _ member
  | race r inTime late =>
    rw [plan] at member
    split at member
    · -- Neither the timer nor the value is due before the instant.
      obtain timedOut | onward := Multiset.mem_add.1 member
      · split at timedOut
        · cases Multiset.notMem_zero _ timedOut
        · rw [Multiset.mem_singleton.1 timedOut]
          exact (awaits.2.overAll_eq now).2
      · exact settles awaits.1 e onward
    · cases Multiset.notMem_zero _ member
  | _ => exact awaits.elim

/-- Values stay on their way as long as time does not pass the end of a sleep that is running. -/
theorem Awaits.pass (awaits : r.Awaits now) {later : Nat}
    (stops : ∀ alarm ∈ r.alarms, now ≤ alarm.deadline → later ≤ alarm.deadline) :
    r.Awaits later := by
  cases r with
  | wait pace next =>
    exact Pace.Awaits.pass awaits fun alarm isRunning =>
      stops alarm (by simpa [alarms] using isRunning)
  | race r inTime late =>
    refine ⟨awaits.1.pass fun alarm isRunning => ?_, awaits.2.pass fun alarm isRunning => ?_⟩
    · exact stops alarm (List.mem_append_left _ (by simpa using isRunning))
    · exact stops alarm (List.mem_append_right _ (by simpa using isRunning))
  | _ => exact awaits.elim

theorem planOfAll_congr {other : Nat} {parts : List Rendering}
    (same : ∀ part ∈ parts, part.plan cell other = part.plan cell now) :
    planOfAll cell other parts = planOfAll cell now parts := by
  induction parts with
  | nil => rfl
  | cons part rest ih =>
    rw [planOfAll, planOfAll, same part List.mem_cons_self,
      ih fun other member => same other (List.mem_cons_of_mem _ member)]

theorem mem_planOfAll {parts : List Rendering} {e : Nat × Moment}
    (member : e ∈ planOfAll cell now parts) : ∃ part ∈ parts, e ∈ part.plan cell now := by
  induction parts with
  | nil => cases Multiset.notMem_zero _ member
  | cons part rest ih =>
    obtain here | later := Multiset.mem_add.1 member
    · exact ⟨part, List.mem_cons_self, here⟩
    · obtain ⟨other, isLater, planned⟩ := ih later
      exact ⟨other, List.mem_cons_of_mem _ isLater, planned⟩

theorem alarms_of_mem {parts : List Rendering} {part : Rendering} (member : part ∈ parts) :
    ∀ alarm ∈ part.alarms, alarm ∈ alarmsOfAll parts := by
  induction parts with
  | nil => cases member
  | cons first rest ih =>
    intro alarm isRunning
    obtain rfl | later := List.mem_cons.1 member
    · exact List.mem_append_left _ isRunning
    · exact List.mem_append_right _ (ih later alarm isRunning)

namespace Holds

/-- What is planned does not depend on when the rendering is asked. -/
theorem plan_eq (holds : Holds cell now r) (other : Nat) : r.plan cell other = r.plan cell now := by
  induction holds with
  | apart treats => rw [treats.plan_eq_zero rfl, treats.plan_eq_zero rfl]
  | own _ awaits => exact awaits.plan_eq other
  | join _ _ ih => exact planOfAll_congr ih
  | attempt _ _ ih => exact ih

/-- Nothing is planned for an instant that has passed. -/
theorem le_plan (holds : Holds cell now r) : ∀ e ∈ r.plan cell now, now ≤ e.1 := by
  induction holds with
  | apart treats =>
    intro e member
    rw [treats.plan_eq_zero rfl] at member
    cases Multiset.notMem_zero _ member
  | own _ awaits => exact awaits.le_plan
  | join _ _ ih =>
    intro e member
    obtain ⟨part, isPart, planned⟩ := mem_planOfAll member
    exact ih part isPart e planned
  | attempt _ _ ih => exact ih

/-- A plan can be held to as long as time does not pass the end of a sleep that is running. -/
theorem pass (holds : Holds cell now r) {later : Nat}
    (stops : ∀ alarm ∈ r.alarms, now ≤ alarm.deadline → later ≤ alarm.deadline) :
    Holds cell later r := by
  induction holds with
  | apart treats => exact .apart treats
  | own treats awaits => exact .own treats (awaits.pass stops)
  | join ofParts onward ih =>
    exact .join (fun part member => ih part member fun alarm isRunning =>
      stops alarm (alarms_of_mem member alarm isRunning)) onward
  | attempt _ onward ih => exact .attempt (ih stops) onward

/-- What is not due before the next instant is not due now. -/
theorem of_succ (holds : Holds cell (now + 1) r) : Holds cell now r :=
  holds.pass fun _ _ later => Nat.le_of_succ_le later

end Holds

end Rendering

namespace FragmentTask

variable {cell now : Nat} {tasks new : List FragmentTask}

/-- The plan of fragments on their way. -/
def planOfAll (cell now : Nat) (tasks : List FragmentTask) : Multiset (Nat × Moment) :=
  Rendering.planOfAll cell now (tasks.map (·.work))

/-- Nothing is planned for a content in fragments that have nothing to do with it. -/
theorem planOfAll_eq_zero (apart : ∀ task ∈ tasks, task.work.Treats cell .apart) :
    planOfAll cell now tasks = 0 := by
  refine Rendering.planOfAll_eq_zero fun part member => ?_
  obtain ⟨task, isTask, rfl⟩ := List.mem_map.1 member
  exact (apart task isTask).plan_eq_zero rfl

theorem planOfAll_append : planOfAll cell now (tasks ++ new) =
    planOfAll cell now tasks + planOfAll cell now new := by
  rw [planOfAll, List.map_append, Rendering.planOfAll_append]
  rfl

theorem planOfAll_cons (task : FragmentTask) : planOfAll cell now (task :: tasks) =
    task.work.plan cell now + planOfAll cell now tasks := rfl

end FragmentTask

/-! ### The balance -/

namespace EventLoop

/-- Of what was due some has happened, and the rest is left. -/
def Proceeds (cell : Nat) (due : Multiset (Nat × Moment)) (w : EventLoop)
    (left : Multiset (Nat × Moment)) (w' : EventLoop) : Prop :=
  ∃ gone, w'.timeline.moments cell = w.timeline.moments cell + gone ∧ gone + left = due

namespace Proceeds

variable {cell : Nat} {due left rest : Multiset (Nat × Moment)} {w w' w'' : EventLoop}

/-- Nothing has happened, and all that was due is left. -/
theorem of_still (moments : w'.timeline.moments cell = w.timeline.moments cell) :
    w.Proceeds cell due due w' :=
  ⟨0, by rw [moments, add_zero], zero_add due⟩

/-- What was left is due next. -/
theorem trans (first : w.Proceeds cell due left w') (second : w'.Proceeds cell left rest w'') :
    w.Proceeds cell due rest w'' := by
  obtain ⟨gone, moments, sum⟩ := first
  obtain ⟨goneLater, momentsLater, sumLater⟩ := second
  refine ⟨gone + goneLater, ?_, ?_⟩
  · rw [momentsLater, moments, add_assoc]
  · rw [add_assoc, sumLater, sum]

/-- Something else is due all the time. -/
theorem add (proceeds : w.Proceeds cell due left w') (other : Multiset (Nat × Moment)) :
    w.Proceeds cell (due + other) (left + other) w' := by
  obtain ⟨gone, moments, sum⟩ := proceeds
  exact ⟨gone, moments, by rw [← add_assoc, sum]⟩

end Proceeds

/-- Of what was due, some has happened at one instant, some is left, and the rest is planned for
    fragments that were handed in meanwhile. -/
structure Balance (cell : Nat) (due : Multiset (Nat × Moment)) (w : EventLoop)
    (left : Multiset (Nat × Moment)) (w' : EventLoop) : Prop where
  atOnce : w.AtOnce w'
  handedIn : ∃ new, w'.registry.tasks = w.registry.tasks ++ new ∧
    (∀ task ∈ new, task.work.Holds cell (w.now + 1)) ∧
    w.Proceeds cell due (left + FragmentTask.planOfAll cell w.now new) w'

namespace Balance

variable {cell : Nat} {due left rest : Multiset (Nat × Moment)} {w w' w'' : EventLoop}

/-- What has happened was due, and all else is left. -/
theorem of_passes {gone : Multiset (Nat × Moment)} (passes : w.Passes cell gone w')
    (left : Multiset (Nat × Moment)) : w.Balance cell (gone + left) left w' := by
  obtain ⟨new, same, apart⟩ := passes.tasks
  refine ⟨passes.atOnce, new, same, fun task isNew => .apart (apart task isNew), gone,
    passes.moments, ?_⟩
  rw [FragmentTask.planOfAll_eq_zero apart, add_zero]

/-- Nothing of what is due has happened. -/
theorem of_beside (passes : w.Passes cell 0 w') (due : Multiset (Nat × Moment)) :
    w.Balance cell due due w' := by
  simpa using of_passes passes due

/-- What was left is due next. -/
theorem trans (first : w.Balance cell due left w') (second : w'.Balance cell left rest w'') :
    w.Balance cell due rest w'' := by
  obtain ⟨atOnce, new, tasks, holds, proceeds⟩ := first
  obtain ⟨later, more, moreTasks, moreHold, proceedsLater⟩ := second
  rw [atOnce.now] at moreHold proceedsLater
  refine ⟨atOnce.trans later, new ++ more, ?_, fun task member => ?_, ?_⟩
  · rw [moreTasks, tasks, List.append_assoc]
  · exact (List.mem_append.1 member).elim (holds task) (moreHold task)
  · have all := proceeds.trans (proceedsLater.add (FragmentTask.planOfAll cell w.now new))
    rwa [FragmentTask.planOfAll_append, add_comm (FragmentTask.planOfAll cell w.now new),
      ← add_assoc]

/-- Something else is due all the time. -/
theorem add (balance : w.Balance cell due left w') (other : Multiset (Nat × Moment)) :
    w.Balance cell (due + other) (left + other) w' := by
  obtain ⟨atOnce, new, tasks, holds, proceeds⟩ := balance
  refine ⟨atOnce, new, tasks, holds, ?_⟩
  rw [add_right_comm]
  exact proceeds.add other

theorem add_left (balance : w.Balance cell due left w') (other : Multiset (Nat × Moment)) :
    w.Balance cell (other + due) (other + left) w' := by
  rw [add_comm other, add_comm other]
  exact balance.add other

end Balance

end EventLoop

end ProgressiveHtml
