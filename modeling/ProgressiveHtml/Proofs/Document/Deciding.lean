import Mathlib.Data.Fintype.EquivFin
import ProgressiveHtml.Proofs.Document.Following

namespace ProgressiveHtml

/-!
# Documents — inline or deferred

Whether a fragment stands inline or is deferred is decided by the time of its own value alone, and
the value settles at its own time in both cases.

* `Fragment.schedule` — what is to happen to a fragment that may be deferred, and when;
* `Fragment.due_eq_schedule` — it is what the value begins with and what it plans;
* `Document.Decided` — what is known of a fragment at some time of reading a document;
* `Document.decides` — this is so for every fragment, at any time of reading a document.
-/

open Rendering

namespace Fragment

/-- What is to happen to a fragment that may be deferred after `timeout`, when its value is asked for
    at the instant `start` and takes `total`, or for ever. -/
def schedule (f : Fragment) (start timeout total : Nat) (never : Bool) : Multiset (Nat × Moment) :=
  {(start, .started)} +
    if never then {(start + timeout, .fallback)}
    else if total ≤ timeout then
      {(start + total, .settled)} + Moment.at (start + total) f.shown?
    else
      {(start + timeout, .fallback)} +
        ({(start + total, .settled)} + Moment.at (start + total) f.shown?)

variable {f : Fragment} {cell timeout : Nat} {fallback : Rendering} {k : String → Rendering}

/-- What happens to the content of a fragment that is late, as soon as its value is there. -/
theorem shown_late (own : f.label.cell = some cell) {slot : Nat} {told : Rendering} {pace : Pace}
    (waits : f.late pace slot = .wait pace told) : told.shown cell = f.shown? := by
  have rendered : (Event.rendering f.label).about cell = some .rendering := Event.about_own rfl own
  have failed : (Event.failure f.label).about cell = some .failure := Event.about_own rfl own
  have reported (error : Chain) : (Event.notice (.fragmentFailed slot error)).about cell = none := rfl
  obtain rfl := (Rendering.wait.inj waits).2
  unfold Eventual.conclude shown? callback?
  cases f.value.panic? with
  | some message => rfl
  | none =>
    cases f.value.result with
    | ok text => simp [settled, Rendering.shown, rendered]
    | error error =>
      cases callback : f.onError <;>
        simp [settled, failureRendering, Rendering.shown, reported, failed, callback]

/-- What happens to a content that is in time is what would happen if it were late. -/
theorem shown_inTime (own : f.label.cell = some cell)
    (treats : ((f.rendering fallback (some timeout)).andThen k).Treats cell .claimed) :
    ((f.value.conclude fun result =>
      .note (.notice (inTimeNotice result)) (f.settled result)).andThen k).shown cell =
        f.shown? := by
  have treats : (Rendering.race (.start f.value.pace timeout)
      ((f.value.conclude fun result =>
        .note (.notice (inTimeNotice result)) (f.settled result)).andThen k)
      fun pace => .register (f.late pace) fun slot =>
        (Rendering.note (.fallback f.label slot) (fallback.andThen fun markup =>
          .done (Markup.placeholder (Markup.slotName slot) markup))).andThen k).Treats cell
      .claimed := treats
  cases treats with
  | ownRace _ ofInTime ofLate =>
    obtain ⟨content, next, told, handedIn, waits, ofTold, -⟩ :=
      (ofLate f.value.pace rfl).late_inv
    obtain rfl := (Rendering.register.inj handedIn).1
    rw [ofInTime.shown_eq, ← shown_late own (waits 0)]
    exact (ofTold 0).shown_eq.symm

/-- What the value of a fragment begins with and what it plans is the schedule of the fragment. -/
theorem due_eq_schedule (own : f.label.cell = some cell) (begun : f.value.pace.begun = false)
    {delays : List Nat} (sleeps : f.value.pace.sleeps = delays.map .idle)
    (treats : ((f.rendering fallback (some timeout)).andThen k).Treats cell .claimed) (now : Nat) :
    ((f.rendering fallback (some timeout)).andThen k).opening now +
        ((f.rendering fallback (some timeout)).andThen k).plan cell now =
      f.schedule now timeout delays.sum f.value.pace.never := by
  have opening : ((f.rendering fallback (some timeout)).andThen k).opening now =
      {(now, .started)} := by
    show Moment.at now (if f.value.pace.begun then none else some .started) = _
    rw [begun]
    rfl
  have plan : ((f.rendering fallback (some timeout)).andThen k).plan cell now =
      Race.plan now f.shown? (.start f.value.pace timeout) := by
    rw [← shown_inTime own treats]
    exact if_pos own
  have isOver : Sleep.overAll now f.value.pace.sleeps = now + delays.sum := by
    rw [sleeps, Sleep.overAll_idle]
  rw [opening, plan]
  -- Whether the value settles at all, and then whether it does so in time, decides the schedule.
  cases never : f.value.pace.never with
  | true =>
    have isDue : f.value.pace.due? now = none := by simp [Pace.due?, never]
    simp [Race.plan, Pace.plan, Race.start, isDue, Sleep.endsAt, schedule]
  | false =>
    have isDue : f.value.pace.due? now = some (now + delays.sum) := by simp [Pace.due?, never, isOver]
    by_cases inTime : delays.sum ≤ timeout <;>
      simp [Race.plan, Pace.plan, Race.start, isDue, Sleep.endsAt, schedule, inTime]

end Fragment

namespace Document

/-- What is known of a fragment at some time of reading a document: what has `happened` to its content
    since `base`, and what of its `schedule` is still to come. -/
structure Decided (cell : Nat) (schedule : Multiset (Nat × Moment)) (base : EventLoop)
    (happened remaining : Multiset (Nat × Moment)) (given : List Placement) (d : Document)
    (w : EventLoop) : Prop where
  moments : w.timeline.moments cell = base.timeline.moments cell + happened
  complete : happened + remaining = schedule
  /-- Nothing that is still to come has been missed, and at the end nothing is still to come. -/
  ahead : ∀ e ∈ remaining, w.now ≤ e.1
  ended : d.stream.finished → remaining = 0
  /-- The slots that were given out are those for which a fallback was called, at the same times; they
      are numbered in order. -/
  registrations : w.timeline.registrations =
    base.timeline.registrations ++ given.map fun p => (p.time, p.slot)
  placements : w.timeline.placements = base.timeline.placements ++ given
  numbered : given.map (·.slot) = List.range w.registry.next
  /-- The slots given out for this fragment are those of its own fallbacks. -/
  own : (happened.filter (·.2 = .fallback)).map (·.1) =
    ((given.filter (·.label.cell = some cell)).map (·.time) : Multiset Nat)

variable {settings : Settings} {body : Node} {w₀ w v : EventLoop} {d : Document}
  {asked : List (Rendering × EventLoop)}

/-- Whether a fragment that may be deferred stands inline is decided by its value alone: it has
    happened to it, and will happen to it, what its schedule says. -/
theorem decides (bodyFirst : settings.compiled.BodyFirst) (fresh : w₀.registry = {})
    (consumes : Consumes (start settings body w₀).1 (start settings body w₀).2 asked d w)
    (calm : Unfailing asked) {value : Eventual (Except Chain String)} {render : String → Built}
    {fallback : Built} {onError : Option (Chain → Built)} {env : Environment} {cell timeout : Nat}
    {k : String → Rendering}
    (evaluated :
      (((Node.defer value render fallback onError).rendering env cell).andThen k, v) ∈ asked)
    (deferrable : env.deferral = some timeout) {name : String} {delays : List Nat} {never : Bool}
    (takes : value.pace = .ofDelays name delays never) :
    ∃ happened remaining given,
      Decided cell ((Fragment.ofCallbacks value render onError env).schedule v.now timeout delays.sum
        never) (start settings body w₀).2 happened remaining given d w := by
  let f := Fragment.ofCallbacks (value.numbered cell) render onError env
  have sleeps : f.value.pace.sleeps = delays.map .idle := congrArg Pace.sleeps takes
  have settles : f.value.pace.never = never := congrArg Pace.never takes
  rw [Node.rendering_defer, deferrable] at evaluated
  have follows := consumes.follows bodyFirst fresh calm
  have inOrder := (consumes.undisturbed bodyFirst fresh calm).inOrder bodyFirst fresh
  -- The value begins when the content is used up, and is asked for at once.
  have begins : Begins cell (f.schedule v.now timeout delays.sum never)
      ((f.rendering (fallback.rendering env) (some timeout)).andThen k) v := by
    intro claimed taken
    have begun : f.value.pace.begun = false := congrArg Pace.begun takes
    have timely : ((f.rendering (fallback.rendering env) (some timeout)).andThen k).Timely v.now := by
      refine ⟨?_, .idle [timeout]⟩
      show Sleep.Timely v.now f.value.pace.sleeps
      rw [sleeps]
      exact .idle delays
    rw [← settles, ← Fragment.due_eq_schedule rfl begun sleeps claimed v.now]
    exact claimed.keeps (w := { v with used := cell :: v.used }) timely List.mem_cons_self taken
  obtain ⟨-, ofParts, ofTasks, happened, moments, sum⟩ :=
    follows.onPlan cell _ v _ evaluated begins
  -- The slots are told by any content that is not used up.
  obtain ⟨other, unused⟩ := Infinite.exists_notMem_finset w.used.toFinset
  obtain ⟨given, places⟩ := (follows.untouched other (by simpa using unused)).slots
  refine ⟨happened, _, given, moments, sum, fun e member => ?_, fun finished => ?_,
    places.registrations, places.placements, ?_,
    Timeline.moments_fallback_since moments places.placements⟩
  · obtain inParts | inTasks := Multiset.mem_add.1 member
    · obtain ⟨r, isPart, planned⟩ := mem_planOfAll inParts
      exact (ofParts r isPart).le_plan e planned
    · obtain ⟨r, isPart, planned⟩ := mem_planOfAll inTasks
      obtain ⟨task, isTask, rfl⟩ := List.mem_map.1 isPart
      have holds := ofTasks task isTask
      split at holds
      · exact holds.le_plan e planned
      · exact holds.of_succ.le_plan e planned
  · obtain ⟨nothing, idle⟩ := inOrder.ended finished
    rw [nothing, idle]
    rfl
  · have empty : (start settings body w₀).2.registry = {} :=
      (start_plays bodyFirst body w₀).2.2.trans fresh
    have numbered := places.numbered
    have next := places.next
    rw [empty] at numbered next
    rw [numbered, next, List.range_eq_range', Nat.zero_add]

/-- A document whose body is a fragment that takes 20 ms and may be deferred after 10 ms, read to its
    end. -/
theorem decides_late : ∃ (settings : Settings) (body : Node)
    (asked : List (Rendering × EventLoop)) (d : Document) (w : EventLoop) (cell : Nat)
    (happened remaining : Multiset (Nat × Moment)) (given : List Placement),
    Consumes (start settings body {}).1 (start settings body {}).2 asked d w ∧
      d.stream.finished = true ∧
      Decided cell ({(0, .started)} + ({(10, .fallback)} + ({(20, .settled)} + {(20, .rendering)})))
        (start settings body {}).2 happened remaining given d w := by
  let settings : Settings :=
    { timeout := 10, template := some "\x7b\x7bbody\x7d\x7d\x7b\x7bdeferredSlots\x7d\x7d",
      requestId := "r" }
  let value : Eventual (Except Chain String) :=
    { pace := .ofDelays "a" [5, 15] false, result := .ok "late" }
  let render (text : String) : Built := .node (.text text)
  let body : Node := .defer value render (.node (.text "wait")) none
  let first := (start settings body {}).1
  let w₀ := (start settings body {}).2
  have bodyFirst : settings.compiled.BodyFirst := by decide +kernel
  -- What asking and waiting lead to, where they are possible.
  have ask {asked : List (Rendering × EventLoop)} {d : Document} {w : EventLoop}
      (consumes : Consumes first w₀ asked d w) (goesOn : (d.poll w).1.next?.isSome) :
      Consumes first w₀ (asked ++ d.asked w) ((d.poll w).1.next?.get goesOn) (d.poll w).2 :=
    consumes.poll (Option.some_get goesOn).symm
  have rest {asked : List (Rendering × EventLoop)} {d : Document} {w : EventLoop}
      (consumes : Consumes first w₀ asked d w) (goesOn : (d.poll w).1.next?.isSome)
      (waits : (d.poll w).1.items.isEmpty ∧ ((d.poll w).1.next?.get goesOn).stream.finished = false)
      (idle : (d.poll w).2.registry.queue = []) (ahead : (d.poll w).2.now ≤ 20) :
      Consumes first w₀ (asked ++ d.asked w) ((d.poll w).1.next?.get goesOn)
        ((d.poll w).2.jump ((d.poll w).1.next?.get goesOn).stream.alarms 20) := by
    obtain ⟨nothing, unfinished⟩ := waits
    refine consumes.pass ?_ idle ahead
    have onward := Option.some_get goesOn
    generalize (d.poll w).1.next?.get goesOn = next at onward unfinished
    rcases polled : d.poll w with ⟨⟨_ | _, d'⟩ | d' | message, w'⟩ <;>
      simp only [polled, Polled.items, Polled.next?, Option.some.injEq, reduceCtorEq] at nothing onward
    · rw [onward, finished_of_poll polled] at unfinished
      cases unfinished
    · cases nothing
    · rw [onward]
  have consumes : Consumes first w₀ _ _ _ := rest .start (by decide +kernel) (by decide +kernel)
    (by decide +kernel) (by decide +kernel)
  have consumes : Consumes first w₀ _ _ _ := rest consumes (by decide +kernel) (by decide +kernel)
    (by decide +kernel) (by decide +kernel)
  have consumes : Consumes first w₀ _ _ _ := ask consumes (by decide +kernel)
  have consumes : Consumes first w₀ _ _ _ := consumes.turn
  have consumes : Consumes first w₀ _ _ _ := rest consumes (by decide +kernel) (by decide +kernel)
    (by decide +kernel) (by decide +kernel)
  have consumes : Consumes first w₀ _ _ _ := consumes.turn
  have consumes : Consumes first w₀ _ _ _ := ask consumes (by decide +kernel)
  have consumes : Consumes first w₀ _ _ _ := ask consumes (by decide +kernel)
  -- The body is asked for first, and its value begins at once.
  let v : EventLoop := w₀.behalf (journalName first.requestId)
  obtain ⟨plays, goesOn, -⟩ := start_plays bodyFirst body {}
  have only := Piece.renderings_of_plays plays (by decide +kernel)
  have alone : settings.compiled.roles.count .body = 1 := by decide +kernel
  rw [alone, List.replicate_one] at only
  have asks : (bodyRendering settings body).asked v ⊆ first.asked w₀ := by
    rw [Document.asked, TemplateStream.asked, goesOn, only]
    exact List.subset_append_left _ _
  have evaluated : (((Node.defer value render (.node (.text "wait")) none).rendering
      (Environment.empty.deferringAfter settings.timeout) v.cells).andThen .done,
      { v with cells := v.cells + 1 }) ∈ first.asked w₀ := by
    rw [Rendering.andThen_done]
    exact asks (.tail _ (Rendering.mem_asked_self _ _))
  obtain ⟨happened, remaining, given, decided⟩ :=
    decides bodyFirst rfl consumes (by decide +kernel)
      (by iterate 7 refine List.mem_append_left _ ?_
          exact List.mem_append_right _ evaluated)
      (show (Environment.empty.deferringAfter settings.timeout).deferral = some 10 from rfl)
      (show value.pace = .ofDelays "a" [5, 15] false from rfl)
  have now : v.now = 0 := by decide +kernel
  refine ⟨settings, body, _, _, _, v.cells, happened, remaining, given, consumes, by decide +kernel,
    ?_⟩
  rw [show ({ v with cells := v.cells + 1 } : EventLoop).now = 0 from now] at decided
  exact decided

end Document

end ProgressiveHtml
