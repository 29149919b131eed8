import ProgressiveHtml.Proofs.Registry.Accounting
import ProgressiveHtml.Proofs.Rendering.Spending

namespace ProgressiveHtml

/-!
# Event loop — everything that can go on

Trees are rendered, some of them again and again; their renderings go on in any order, or are dropped.
The fragments they hand in go on in the background.  The registry is asked for items, and given up.
Whatever happens, nothing is done twice with a content.

* `EventLoop.Activity` — the states that any of this leads to;
* `EventLoop.Thrifty` — what has been done with a content, and what is ahead of some renderings;
* `EventLoop.Activity.thrifty` — nothing but what is ahead is ever done.
-/

open Rendering

/-- A fragment that goes on stays where it is among the others, which have other slots. -/
theorem Registry.keep_tasks {r : Registry} {slot : Nat} {work : Rendering}
    {before after : List FragmentTask} (split : r.tasks = before ++ ⟨slot, work⟩ :: after)
    (once : (r.tasks.map (·.slot)).Nodup) (left : Rendering) :
    (r.keep slot left).tasks = before ++ ⟨slot, left⟩ :: after := by
  rw [split, List.map_append, List.map_cons, List.nodup_middle, List.nodup_cons,
    ← List.map_append] at once
  have others {tasks : List FragmentTask} (among : tasks ⊆ before ++ after) :
      (tasks.map fun task => if task.slot = slot then ⟨slot, left⟩ else task) = tasks := by
    have apart (task : FragmentTask) (member : task ∈ tasks) : task.slot ≠ slot := fun same =>
      once.1 (List.mem_map.2 ⟨task, among member, same⟩)
    exact (List.map_congr_left fun task member => if_neg (apart task member)).trans (List.map_id _)
  simp [keep, split, others (List.subset_append_left before after),
    others (List.subset_append_right before after)]

/-- A late fragment that an author hands in has nothing to do with a content yet. -/
theorem LateFragment.treats_late {late : LateFragment}
    (unnumbered : late.value.pace.label.cell = none) (cell slot : Nat) :
    (late.fragment.late late.value.pace slot).Treats cell .apart := by
  have apart : late.fragment.Apart cell :=
    Fragment.apart_ofCallbacks cell late.value late.shown late.failed? late.env
  have other : late.fragment.label.cell ≠ some cell := by
    simp [Fragment.label, LateFragment.fragment, Fragment.ofCallbacks, unnumbered]
  have treats := apart.rendering (.done "") (some 0)
  rw [if_neg other] at treats
  cases treats with
  | race _ _ ofLate =>
    cases ofLate _ rfl with
    | register ofContent _ => exact ofContent slot

namespace EventLoop

/-- The states that any activity leads to, with the renderings that go on (`parts`) beside the fragments
    in the registry, and all fragments that were handed in. -/
inductive Activity : List Rendering → List Registration → EventLoop → Prop
  | start {w : EventLoop} (fresh : w.registry = {}) (unused : w.used = [])
      (blank : w.timeline.events = []) : Activity [] [] w
  /-- A tree is rendered whose contents have been numbered, perhaps not for the first time. -/
  | begin {parts : List Rendering} {handed : List Registration} {w : EventLoop}
      (activity : Activity parts handed w) (node : Node) (env : Environment) (first : Nat) :
      Activity (parts ++ [node.rendering env first]) handed w
  /-- What has been built is rendered; its contents get numbers on the way. -/
  | build {parts : List Rendering} {handed : List Registration} {w : EventLoop}
      (activity : Activity parts handed w) (built : Built) (env : Environment) :
      Activity (parts ++ [built.rendering env]) handed w
  /-- A rendering goes on. -/
  | step {before after : List Rendering} {r r' : Rendering} {handed more : List Registration}
      {w w' : EventLoop} (activity : Activity (before ++ r :: after) handed w)
      (step : r.Step w more r' w') : Activity (before ++ r' :: after) (handed ++ more) w'
  /-- A rendering is dropped, or what came of it has been taken. -/
  | drop {before after : List Rendering} {r : Rendering} {handed : List Registration} {w : EventLoop}
      (activity : Activity (before ++ r :: after) handed w) : Activity (before ++ after) handed w
  /-- An author hands in a late fragment. -/
  | handIn {parts : List Rendering} {handed : List Registration} {w : EventLoop}
      (activity : Activity parts handed w) (late : LateFragment)
      (unnumbered : late.value.pace.label.cell = none) :
      Activity parts (handed ++ [w.registration (late.fragment.late late.value.pace)])
        (w.register (late.fragment.late late.value.pace)).2
  /-- A late fragment goes on. -/
  | goOn {parts : List Rendering} {handed more : List Registration} {w w' : EventLoop} {slot : Nat}
      {work left : Rendering} (activity : Activity parts handed w)
      (found : w.registry.task? slot = some work) (steps : work.Steps w more left w') :
      Activity parts (handed ++ more) { w' with registry := w'.registry.keep slot left }
  /-- A late fragment has come to its end. -/
  | finish {parts : List Rendering} {handed : List Registration} {w : EventLoop} {slot : Nat}
      {work : Rendering} {item : Item} (activity : Activity parts handed w)
      (found : w.registry.task? slot = some work) (ended : Registry.item? slot work = some item) :
      Activity parts handed { w with registry := w.registry.deliver slot item }
  /-- The registry is asked for an item. -/
  | ask {parts : List Rendering} {handed : List Registration} {w w' : EventLoop} {answer : Answer}
      (activity : Activity parts handed w) (asked : w.drain = (answer, w')) :
      Activity parts handed w'
  /-- The registry is given up. -/
  | close {parts : List Rendering} {handed : List Registration} {w : EventLoop}
      (activity : Activity parts handed w) : Activity parts handed w.close
  /-- Time passes, fragments are woken, or something is written down that is not about a content. -/
  | elsewhere {parts : List Rendering} {handed : List Registration} {w w' : EventLoop}
      {new : List Event} (activity : Activity parts handed w) (used : w'.used = w.used)
      (registry : ∃ queue, w'.registry = { w.registry with queue })
      (events : w'.timeline.events = w.timeline.events ++ new)
      (unlabelled : ∀ event ∈ new, event.labelled = none) : Activity parts handed w'

/-- The registry is in a state that can be reached. -/
theorem Activity.reached {parts : List Rendering} {handed : List Registration} {w : EventLoop}
    (activity : Activity parts handed w) : ∃ h, Reached h w := by
  induction activity with
  | start fresh => exact ⟨[], .start fresh⟩
  | begin _ _ _ _ ih | build _ _ _ ih | drop _ ih => exact ih
  | step _ step ih =>
    obtain ⟨h, reached⟩ := ih
    exact ⟨_, reached.steps (.single step)⟩
  | handIn _ late _ ih =>
    obtain ⟨h, reached⟩ := ih
    exact ⟨_, reached.handIn _⟩
  | goOn _ found steps ih =>
    obtain ⟨h, reached⟩ := ih
    exact ⟨_, reached.background (.goOn found steps)⟩
  | finish _ found ended ih =>
    obtain ⟨h, reached⟩ := ih
    exact ⟨_, reached.background (.finish found ended)⟩
  | ask _ asked ih =>
    obtain ⟨h, reached⟩ := ih
    exact ⟨_, reached.ask asked⟩
  | close _ ih =>
    obtain ⟨h, reached⟩ := ih
    exact ⟨h, reached.close⟩
  | @elsewhere parts handed w w' _ _ _ registry _ _ ih =>
    obtain ⟨h, reached⟩ := ih
    obtain ⟨queue, same⟩ := registry
    -- Whatever else happens may wake tasks, as the passing of time does.
    have woken := reached.background (.pass (Nat.le_refl w.now) queue)
    exact ⟨_, woken.elsewhere same⟩

namespace Activity

variable {before after : List Rendering} {r r' : Rendering} {handed more : List Registration}
  {w w' : EventLoop}

/-- A rendering goes on for several steps. -/
theorem steps (activity : Activity (before ++ r :: after) handed w) (steps : r.Steps w more r' w') :
    Activity (before ++ r' :: after) (handed ++ more) w' := by
  induction steps generalizing handed with
  | refl => simpa using activity
  | head step _ ih =>
    rw [← List.append_assoc]
    exact ih (activity.step step)

/-- A rendering goes on as far as it gets. -/
theorem poll (activity : Activity (before ++ r :: after) handed w) :
    ∃ more, Activity (before ++ (r.poll w).1 :: after) (handed ++ more) (r.poll w).2 := by
  obtain ⟨more, steps⟩ := r.poll_steps w
  exact ⟨more, activity.steps steps⟩

end Activity

/-! ### Nothing but what is ahead -/

/-- Whether a result is shown only after its value has settled. -/
def InOrder (deeds : List Deed) : Prop :=
  ∀ earlier later, deeds = earlier ++ .shown :: later → .settled ∈ earlier

/-- What is done next keeps the order if a result is shown only when its value has settled. -/
theorem InOrder.append {deeds new : List Deed} (inOrder : InOrder deeds)
    (founded : .shown ∈ new → .settled ∈ deeds) : InOrder (deeds ++ new) := by
  intro earlier later same
  obtain ⟨between, rfl, isNew⟩ | ⟨between, rfl, isOld⟩ := List.append_eq_append_iff.1 same
  · exact List.mem_append_left _ (founded (isNew ▸ by simp))
  · cases between with
    | nil => simpa using founded (by simp at isOld; simp [← isOld])
    | cons first between =>
      obtain ⟨rfl, -⟩ := List.cons.inj isOld
      exact inOrder earlier between rfl

/-- What has been done with a content, what is ahead of some renderings, and what is ahead of it while it
    is not used up, is together no more than everything. -/
structure Thrifty (cell : Nat) (parts : List Rendering) (handed : List Registration)
    (w : EventLoop) : Prop where
  inOrder : InOrder (w.timeline.deeds cell)
  requested : ∀ label slot, .fallback label slot ∈ w.timeline.events → label.cell = some cell →
    Requested cell handed slot
  ahead : ∃ ahead, AllowsAll cell handed (w.timeline.deeds cell) ahead parts ∧
    (w.timeline.deeds cell : Multiset Deed) + ahead + w.reserve cell ≤ Deed.all

namespace Thrifty

variable {cell : Nat} {parts parts' before after : List Rendering} {r r' : Rendering}
  {handed more : List Registration} {w w' : EventLoop}

/-- Nothing has been done twice. -/
theorem nodup (thrifty : w.Thrifty cell parts handed) : (w.timeline.deeds cell).Nodup := by
  obtain ⟨-, -, ahead, -, enough⟩ := thrifty
  have done : (w.timeline.deeds cell : Multiset Deed) ≤ Deed.all :=
    le_trans (le_trans (Multiset.le_add_right ..) (Multiset.le_add_right ..)) enough
  have everything : Deed.all.Nodup := by decide
  exact Multiset.coe_nodup.1 (Multiset.nodup_of_le done everything)

/-- Some of the renderings are dropped. -/
theorem sublist (thrifty : w.Thrifty cell parts handed) (fewer : parts'.Sublist parts) :
    w.Thrifty cell parts' handed := by
  obtain ⟨inOrder, requested, ahead, allows, enough⟩ := thrifty
  obtain ⟨left, within, allows⟩ := allows.sublist fewer
  refine ⟨inOrder, requested, left, allows, le_trans ?_ enough⟩
  gcongr

/-- A rendering is begun that has nothing to do with the content yet. -/
theorem begin (thrifty : w.Thrifty cell (before ++ after) handed)
    (treats : r.Treats cell .apart) : w.Thrifty cell (before ++ r :: after) handed := by
  obtain ⟨inOrder, requested, ahead, allows, enough⟩ := thrifty
  obtain ⟨first, second, rfl, ofBefore, ofAfter⟩ := allows.split
  refine ⟨inOrder, requested, _, ofBefore.append (.cons (.apart treats) ofAfter), ?_⟩
  rwa [zero_add]

/-- Something happens that has nothing to do with contents. -/
theorem elsewhere {new : List Event} (thrifty : w.Thrifty cell parts handed)
    (used : w'.used = w.used) (events : w'.timeline.events = w.timeline.events ++ new)
    (unlabelled : ∀ event ∈ new, event.labelled = none) : w'.Thrifty cell parts handed := by
  obtain ⟨inOrder, requested, ahead, allows, enough⟩ := thrifty
  have same : w'.timeline.deeds cell = w.timeline.deeds cell := by
    have none : Event.deeds cell new = [] := List.filterMap_eq_nil_iff.2 fun event member => by
      simp [Event.deed?, Event.about, unlabelled event member]
    rw [Timeline.deeds_of_events events, none, List.append_nil]
  refine ⟨same ▸ inOrder, fun label slot member own => ?_, ahead, same ▸ allows, ?_⟩
  · rw [events] at member
    obtain old | isNew := List.mem_append.1 member
    · exact requested label slot old own
    · cases unlabelled _ isNew
  · rw [same]
    simpa only [reserve, used] using enough

/-- A fragment is handed in that has nothing to do with the content yet. -/
theorem handIn {content : Nat → Rendering} (thrifty : w.Thrifty cell parts handed)
    (treats : (content w.registry.next).Treats cell .apart) :
    (w.register content).2.Thrifty cell (parts ++ [content w.registry.next])
      (handed ++ [w.registration content]) := by
  have writes : (w.register content).2.timeline.events =
      w.timeline.events ++ [.notice w.registry.registrationNotice] := w.timeline.events_note _
  have known : handed ⊆ handed ++ [w.registration content] := List.subset_append_left _ _
  obtain ⟨inOrder, requested, ahead, allows, enough⟩ : Thrifty cell parts handed
      (w.register content).2 := thrifty.elsewhere rfl writes (by simp [Event.labelled])
  refine ⟨inOrder, fun label slot member own => (requested label slot member own).later known,
    ahead + 0, (allows.later _ known (List.Subset.refl _)).append (.single (.apart treats)), ?_⟩
  rwa [add_zero]

/-- A rendering goes on. -/
theorem step (thrifty : w.Thrifty cell (before ++ r :: after) handed)
    (step : r.Step w more r' w') :
    w'.Thrifty cell (before ++ r' :: (after ++ more.map (·.task.work))) (handed ++ more) := by
  obtain ⟨inOrder, requested, ahead, allows, enough⟩ := thrifty
  obtain ⟨first, here, last, rfl, ofBefore, ofPart, ofAfter⟩ := allows.middle
  obtain ⟨used, new, given, left, events, founded, ofGiven, ofParts, spent⟩ :=
    (step.spends ofPart).beside ofBefore ofAfter
  have deeds : w'.timeline.deeds cell = w.timeline.deeds cell ++ Event.deeds cell new :=
    Timeline.deeds_of_events events
  constructor
  case inOrder =>
    rw [deeds]
    refine inOrder.append fun shown => ?_
    obtain ⟨event, isNew, shows⟩ := List.mem_filterMap.1 shown
    exact (founded event isNew).settled shows
  case requested =>
    intro label slot member own
    rw [events] at member
    obtain old | isNew := List.mem_append.1 member
    · exact (requested label slot old own).later (List.subset_append_left _ _)
    · exact (founded _ isNew).requested label slot rfl own
  case ahead =>
    -- What the step has done was ahead of it, and what is left and what it has handed in share the
    -- rest.
    have all := ofParts.append ofGiven
    rw [List.append_assoc, List.cons_append] at all
    refine ⟨_, all, le_trans ?_ enough⟩
    rw [deeds, ← Multiset.coe_add]
    calc (w.timeline.deeds cell + Event.deeds cell new : Multiset Deed) + (left + given) +
          w'.reserve cell
        = w.timeline.deeds cell + (Event.deeds cell new + (given + left) + w'.reserve cell) := by
          abel
      _ ≤ w.timeline.deeds cell + (first + (here + last) + w.reserve cell) := by gcongr
      _ = w.timeline.deeds cell + (first + (here + last)) + w.reserve cell := by abel

/-- A rendering goes on for several steps. -/
theorem steps (thrifty : w.Thrifty cell (before ++ r :: after) handed)
    (steps : r.Steps w more r' w') :
    w'.Thrifty cell (before ++ r' :: (after ++ more.map (·.task.work))) (handed ++ more) := by
  induction steps generalizing after handed with
  | refl => simpa using thrifty
  | head step _ ih =>
    have onward := ih (thrifty.step step)
    rwa [List.append_assoc, ← List.map_append, List.append_assoc] at onward

end Thrifty

/-- What asking the registry writes down is not about a content. -/
theorem events_of_drain {w w' : EventLoop} {answer : Answer} (asked : w.drain = (answer, w')) :
    ∃ new, w'.timeline.events = w.timeline.events ++ new ∧
      ∀ event ∈ new, event.labelled = none := by
  have nothing : w.timeline.events = w.timeline.events ++ [] := (List.append_nil _).symm
  unfold drain at asked
  split at asked <;> obtain ⟨-, rfl⟩ := Prod.mk.inj asked
  · unfold handOut
    split
    · exact ⟨_, w.timeline.events_note _, by simp [Event.labelled]⟩
    · exact ⟨[], nothing, by simp⟩
  · exact ⟨[], nothing, by simp⟩

/-- Whatever goes on, nothing is done with a content but what is ahead of it. -/
theorem Activity.thrifty {parts : List Rendering} {handed : List Registration} {w : EventLoop}
    (activity : Activity parts handed w) (cell : Nat) :
    w.Thrifty cell (parts ++ w.registry.tasks.map (·.work)) handed := by
  induction activity with
  | @start w fresh unused blank =>
    have none : w.timeline.deeds cell = [] := by
      rw [Timeline.deeds, blank]
      rfl
    refine ⟨by simp [InOrder, none], by simp [blank], 0, by simpa [fresh] using .nil, ?_⟩
    simp [none, reserve, unused]
  | @begin parts handed w _ node env first ih =>
    rw [List.append_assoc]
    exact ih.begin (node.treats_rendering cell env first)
  | @build parts handed w _ built env ih =>
    rw [List.append_assoc]
    exact ih.begin (built.treats_rendering cell env)
  | @step before after r r' handed more w w' _ step ih =>
    rw [List.append_assoc, List.cons_append] at ih ⊢
    obtain ⟨given, isGiven, tasks, -⟩ := (Steps.single step).taken
    refine (ih.step step).sublist ?_
    rw [tasks, List.map_append, ← List.append_assoc]
    obtain rfl | rfl := isGiven <;> simp [Function.comp_def]
  | drop _ ih => exact ih.sublist (by simp)
  | @handIn parts handed w _ late unnumbered ih =>
    refine (ih.handIn (late.treats_late unnumbered cell _)).sublist ?_
    rw [register_registry, Registry.register]
    split <;> simp
  | @goOn parts handed more w w' slot work left activity found steps ih =>
    -- A task goes on in its place, and what it hands in comes behind all others, unless it is
    -- discarded.
    obtain ⟨before, after, split⟩ := List.append_of_mem (Registry.mem_of_task? found)
    obtain ⟨given, isGiven, tasks, -⟩ := steps.taken
    obtain ⟨h, reached⟩ := activity.reached
    rw [split, List.append_assoc, List.cons_append] at tasks
    have kept := Registry.keep_tasks tasks (reached.steps steps).accounts.tasks_nodup left
    rw [split, List.map_append, List.map_cons, ← List.append_assoc] at ih
    refine ((ih.steps steps).sublist ?_).elsewhere rfl (List.append_nil _).symm (by simp)
    show (parts ++ (w'.registry.keep slot left).tasks.map (·.work)).Sublist _
    rw [kept]
    obtain rfl | rfl := isGiven <;> simp [Function.comp_def]
  | @finish parts handed w slot work item _ found ended ih =>
    refine (ih.sublist ?_).elsewhere rfl (List.append_nil _).symm (by simp)
    exact (List.filter_sublist.map _).append_left parts
  | ask _ asked ih =>
    obtain ⟨new, events, unlabelled⟩ := events_of_drain asked
    rw [(registry_of_drain asked).2.2]
    exact ih.elsewhere (drain_apart asked).2.2.1 events unlabelled
  | close _ ih =>
    refine (ih.sublist ?_).elsewhere rfl (List.append_nil _).symm (by simp)
    exact (List.nil_sublist _).append_left _
  | @elsewhere parts handed w w' _ _ used registry events unlabelled ih =>
    obtain ⟨queue, same⟩ := registry
    rw [same]
    exact ih.elsewhere used events unlabelled

end EventLoop

end ProgressiveHtml
