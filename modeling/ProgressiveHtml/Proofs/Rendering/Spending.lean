import Mathlib.Tactic.Abel
import ProgressiveHtml.Proofs.Rendering.Allowance

namespace ProgressiveHtml

/-!
# Renderings — doing what is ahead

A step does nothing with a content but what is ahead of it, and what it does is no longer ahead: neither
of the rendering nor of the fragments it has handed in.

* `Rendering.Spends` — what is done from a state to a later one, and what is left ahead;
* `Rendering.Spends.beside` — the others leave ahead what one of several renderings does not do;
* `Rendering.Step.spends` — every step of a rendering.
-/

namespace Rendering

variable {cell : Nat} {handed more : List Registration} {past : List Deed}
  {ahead left : Multiset Deed} {r r' : Rendering} {w w' : EventLoop}

/-! ### One step -/

/-- What is done from a state to a later one is no longer ahead.  What is left is ahead of the renderings
    that there are then (`parts`), and of the fragments that were handed in meanwhile. -/
structure Spends (cell : Nat) (handed : List Registration) (ahead : Multiset Deed) (w : EventLoop)
    (more : List Registration) (parts : List Rendering) (w' : EventLoop) : Prop where
  used : w.used ⊆ w'.used
  spent : ∃ new given left, w'.timeline.events = w.timeline.events ++ new ∧
    (∀ event ∈ new, event.Founded cell (handed ++ more) (w.timeline.deeds cell)) ∧
    AllowsAll cell (handed ++ more) (w'.timeline.deeds cell) given (more.map (·.task.work)) ∧
    AllowsAll cell (handed ++ more) (w'.timeline.deeds cell) left parts ∧
    (Event.deeds cell new : Multiset Deed) + (given + left) + w'.reserve cell ≤
      ahead + w.reserve cell

namespace Spends

/-- A step that hands in nothing and uses up nothing. -/
theorem of_events {new : List Event} (used : w'.used = w.used)
    (events : w'.timeline.events = w.timeline.events ++ new)
    (founded : ∀ event ∈ new, event.Founded cell handed (w.timeline.deeds cell))
    (allows : ∃ left, r'.Allows cell handed (w.timeline.deeds cell ++ Event.deeds cell new) left ∧
      (Event.deeds cell new : Multiset Deed) + left ≤ ahead) :
    Spends cell handed ahead w [] [r'] w' := by
  obtain ⟨left, allows, enough⟩ := allows
  refine ⟨used ▸ List.Subset.refl _, new, 0, left, events, ?_, .nil, ?_, ?_⟩
  · simpa using founded
  · rw [List.append_nil, Timeline.deeds_of_events events]
    exact .single allows
  · have kept : w'.reserve cell = w.reserve cell := by simp only [EventLoop.reserve, used]
    rw [zero_add, kept]
    exact add_le_add_left enough _

/-- A step that writes nothing down. -/
theorem silently (used : w'.used = w.used) (timeline : w'.timeline = w.timeline)
    (allows : r'.Allows cell handed (w.timeline.deeds cell) left) (enough : left ≤ ahead) :
    Spends cell handed ahead w [] [r'] w' := by
  have events : w'.timeline.events = w.timeline.events ++ [] := by rw [timeline, List.append_nil]
  refine of_events used events (by simp) ⟨left, ?_, ?_⟩
  · simpa [Event.deeds] using allows
  · simpa [Event.deeds] using enough

/-- What some renderings leave ahead, others may leave. -/
theorem imp {parts parts' : List Rendering} (spends : Spends cell handed ahead w more parts w')
    (allows : ∀ {handed past left}, AllowsAll cell handed past left parts →
      AllowsAll cell handed past left parts') : Spends cell handed ahead w more parts' w' := by
  obtain ⟨used, new, given, left, events, founded, ofGiven, ofParts, enough⟩ := spends
  exact ⟨used, new, given, left, events, founded, ofGiven, allows ofParts, enough⟩

/-- What one of several renderings does, the others leave ahead. -/
theorem beside {before after : List Rendering} {first here last : Multiset Deed}
    (spends : Spends cell handed here w more [r'] w')
    (ofBefore : AllowsAll cell handed (w.timeline.deeds cell) first before)
    (ofAfter : AllowsAll cell handed (w.timeline.deeds cell) last after) :
    Spends cell handed (first + (here + last)) w more (before ++ r' :: after) w' := by
  obtain ⟨used, new, given, left, events, founded, ofGiven, allows, enough⟩ := spends
  have known : handed ⊆ handed ++ more := List.subset_append_left _ _
  have done : w.timeline.deeds cell ⊆ w'.timeline.deeds cell := by
    rw [Timeline.deeds_of_events events]
    exact List.subset_append_left _ _
  refine ⟨used, new, given, first + (left + last), events, founded, ofGiven,
    (ofBefore.later _ known done).append (allows.append (ofAfter.later _ known done)), ?_⟩
  calc (Event.deeds cell new : Multiset Deed) + (given + (first + (left + last))) + w'.reserve cell
      = first + ((Event.deeds cell new + (given + left) + w'.reserve cell) + last) := by abel
    _ ≤ first + ((here + w.reserve cell) + last) := by gcongr
    _ = first + (here + last) + w.reserve cell := by abel

end Spends

/-- A value of another content is asked. -/
theorem Spends.asksOther {pace : Pace} {timeline : Timeline} {isThere : Bool}
    (other : pace.label.cell ≠ some cell)
    (events : timeline.events = w.timeline.events ++ pace.writes isThere)
    (treats : r'.Treats cell .apart) : Spends cell handed 0 w [] [r'] { w with timeline } := by
  refine .of_events rfl events (pace.founded_writes isThere) ⟨0, .apart treats, ?_⟩
  rw [Pace.deeds_writes_other other]
  rfl

/-- The value of the content is asked, and is still to come. -/
theorem Spends.asks {pace kept : Pace} {timeline : Timeline} {others : Multiset Deed}
    (own : pace.label.cell = some cell)
    (events : timeline.events = w.timeline.events ++ pace.writes false)
    (begun : kept.begun = true)
    (allows : r'.Allows cell handed (w.timeline.deeds cell ++ Event.deeds cell (pace.writes false))
      (others + kept.toBeDone)) :
    Spends cell handed (others + pace.toBeDone) w [] [r'] { w with timeline } := by
  refine .of_events rfl events (pace.founded_writes false) ⟨_, allows, le_of_eq ?_⟩
  rw [Pace.deeds_writes own, add_left_comm]
  simp [Pace.toBeDone, begun]

/-- The value of the content is asked and settles. -/
theorem Spends.settles {pace : Pace} {timeline : Timeline} {shown : Option Moment}
    (own : pace.label.cell = some cell)
    (events : timeline.events = w.timeline.events ++ pace.writes true)
    (treats : r'.Treats cell (.settled shown)) (enough : pace.toBeDone ≤ ahead) :
    Spends cell handed ahead w [] [r'] { w with timeline } := by
  have isThere : .settled ∈ w.timeline.deeds cell ++ Event.deeds cell (pace.writes true) :=
    List.mem_append_right _ (Pace.settled_mem_writes own)
  obtain ⟨left, few, allows⟩ : ∃ left ≤ {.shown}, r'.Allows cell handed
      (w.timeline.deeds cell ++ Event.deeds cell (pace.writes true)) left :=
    Allows.of_settled isThere treats
  refine .of_events rfl events (pace.founded_writes true) ⟨left, allows, le_trans ?_ enough⟩
  rw [Pace.deeds_writes own, Pace.toBeDone, if_pos rfl, add_assoc]
  exact add_le_add_right (add_le_add_right few {.settled}) _

/-- An event is written down. -/
theorem Spends.note {event : Event} {next : Rendering}
    (allows : (Rendering.note event next).Allows cell handed (w.timeline.deeds cell) ahead) :
    Spends cell handed ahead w [] [next] (w.note event) := by
  have alone : ∀ other ∈ [event], event.Founded cell handed (w.timeline.deeds cell) →
      other.Founded cell handed (w.timeline.deeds cell) := by
    intro other member founded
    rwa [List.mem_singleton.1 member]
  have writes := w.timeline.events_note event
  -- An event that tells nothing of the content, before something that allows no more.
  have aside {left : Multiset Deed} (other : event.about cell = none)
      (founded : event.Founded cell handed (w.timeline.deeds cell))
      (allows : next.Allows cell handed (w.timeline.deeds cell) left) (few : left ≤ ahead) :
      Spends cell handed ahead w [] [next] (w.note event) := by
    have none : Event.deeds cell [event] = [] := by simp [Event.deeds, Event.deed?, other]
    refine .of_events rfl writes (fun _ member => alone _ member founded) ⟨left, ?_, ?_⟩
    · rwa [none, List.append_nil]
    · rw [none]
      exact (zero_add left).symm ▸ few
  -- An event that is all that was ahead, before something that has nothing to do with the content.
  have last {deed : Deed} (does : event.deed? cell = some deed) (mine : {deed} ≤ ahead)
      (founded : event.Founded cell handed (w.timeline.deeds cell))
      (treats : next.Treats cell .apart) : Spends cell handed ahead w [] [next] (w.note event) := by
    have only : Event.deeds cell [event] = [deed] := by simp [Event.deeds, does]
    refine .of_events rfl writes (fun _ member => alone _ member founded) ⟨0, .apart treats, ?_⟩
    rw [only, add_zero]
    exact mine
  cases allows with
  | apart treats =>
    cases treats with
    | note other plain onward =>
      exact aside other (.of_plain (by simp [Event.deed?, other]) plain.2) (.apart onward) le_rfl
  | report isThere other plain onward =>
    obtain ⟨left, few, allows⟩ := Allows.of_settled isThere onward
    exact aside other (.of_plain (by simp [Event.deed?, other]) plain.2) allows few
  | @shows moment _ _ isThere about isShown plain onward =>
    have does : event.deed? cell = some .shown := by
      rw [Event.deed?, about, Option.map_some, isShown.deed_eq]
    refine last does le_rfl ⟨fun _ => isThere, fun label slot same => ?_⟩ onward
    subst same
    cases plain.2
  | @place label slot _ own requested onward =>
    refine last (Event.deed?_own rfl own) le_rfl ⟨fun isShown => ?_, fun _ _ same _ => ?_⟩ onward
    · rw [Event.deed?_own rfl own] at isShown
      cases isShown
    · cases same
      exact requested
  | @placeOther label slot _ other onward =>
    refine aside (Event.about_other rfl other) ⟨fun isShown => ?_, fun _ _ same own => ?_⟩
      (.apart onward) le_rfl
    · rw [Event.deed?_other rfl other] at isShown
      cases isShown
    · cases same
      exact absurd own other

/-- A content is used up: if it is this one, everything that is ahead of it passes to the rendering. -/
theorem Spends.claim {other : Nat} {next : Rendering} (fresh : other ∉ w.used)
    (allows : (Rendering.claim other next).Allows cell handed (w.timeline.deeds cell) ahead) :
    Spends cell handed ahead w [] [next] { w with used := other :: w.used } := by
  have passes {left : Multiset Deed}
      (allows : next.Allows cell handed (w.timeline.deeds cell) left)
      (enough : left + EventLoop.reserve cell { w with used := other :: w.used } ≤
        ahead + w.reserve cell) :
      Spends cell handed ahead w [] [next] { w with used := other :: w.used } := by
    refine ⟨List.subset_cons_self _ _, [], 0, left, by simp, by simp, .nil, .single (by simpa), ?_⟩
    simpa [Event.deeds] using enough
  cases allows with
  | apart treats =>
    cases treats with
    | claimOther isOther onward =>
      refine passes (.apart onward) (le_of_eq ?_)
      have still : cell ∈ other :: w.used ↔ cell ∈ w.used := by simp [Ne.symm isOther]
      simp only [EventLoop.reserve, still]
    | claim onward =>
      obtain ⟨left, within, allows⟩ : ∃ left ≤ Deed.all,
          next.Allows cell handed (w.timeline.deeds cell) left := Allows.of_claimed onward
      refine passes allows ?_
      simpa [EventLoop.reserve, fresh] using within

/-- A fragment is handed in: what is ahead passes to it, but for the call of its fallback. -/
theorem Spends.register {content next : Nat → Rendering}
    (allows : (Rendering.register content next).Allows cell handed (w.timeline.deeds cell) ahead) :
    Spends cell handed ahead w [w.registration content] [next (w.register content).1]
      (w.register content).2 := by
  let notice : Event := .notice w.registry.registrationNotice
  have writes : (w.register content).2.timeline.events = w.timeline.events ++ [notice] :=
    w.timeline.events_note notice
  have none : Event.deeds cell [notice] = [] := rfl
  have deeds : (w.register content).2.timeline.deeds cell = w.timeline.deeds cell := by
    rw [Timeline.deeds_of_events writes, none, List.append_nil]
  -- Whatever the fragment and the rest may still do shares what was ahead.
  have passes {given left : Multiset Deed}
      (ofContent : (content w.registry.next).Allows cell (handed ++ [w.registration content])
        (w.timeline.deeds cell) given)
      (ofNext : (next w.registry.next).Allows cell (handed ++ [w.registration content])
        (w.timeline.deeds cell) left)
      (enough : given + left ≤ ahead) :
      Spends cell handed ahead w [w.registration content] [next (w.register content).1]
        (w.register content).2 := by
    refine ⟨List.Subset.refl _, [notice], given, left, writes, ?_, ?_, ?_, ?_⟩
    · intro event member
      rw [List.mem_singleton.1 member]
      exact .of_plain (by simp [notice, Event.deed?, Event.about, Event.labelled]) rfl
    · rw [deeds]
      exact .single ofContent
    · rw [deeds]
      exact .single ofNext
    · rw [none, Multiset.coe_nil, zero_add]
      exact add_le_add_left enough _
  cases allows with
  | apart treats =>
    cases treats with
    | register ofContent onward =>
      exact passes (.apart (ofContent _)) (.of_placingOther (onward _)) (by simp)
  | @handIn _ pace _ _ told own waits ofTold onward =>
    -- The slot is requested for the content, so that its fallback may be called.
    have requested : Requested cell (handed ++ [w.registration content]) w.registry.next :=
      ⟨w.registration content, by simp, rfl, pace, told w.registry.next, waits _, own⟩
    have allows : (content w.registry.next).Allows cell (handed ++ [w.registration content])
        (w.timeline.deeds cell) pace.toBeDone := by
      rw [waits]
      exact .wait own (ofTold _)
    refine passes allows (.of_placing requested (onward _)) (le_of_eq ?_)
    rw [add_comm, Multiset.singleton_add]

/-- A value is asked. -/
theorem Spends.wait {pace left : Pace} {timeline : Timeline}
    (asked : pace.poll w.timeline = (some left, timeline)) {next : Rendering}
    (allows : (Rendering.wait pace next).Allows cell handed (w.timeline.deeds cell) ahead) :
    Spends cell handed ahead w [] [Rendering.wait left next] { w with timeline } := by
  have events := pace.events_poll w.timeline
  have label := Pace.label_of_poll asked
  rw [asked] at events
  cases allows with
  | apart treats =>
    cases treats with
    | wait other onward => exact .asksOther other events (.wait (label ▸ other) onward)
  | wait own onward =>
    rw [← zero_add pace.toBeDone]
    refine .asks own events (Pace.begun_of_poll asked) ?_
    rw [zero_add]
    exact .wait (label ▸ own) onward

/-- A value is asked and settles. -/
theorem Spends.settle {pace : Pace} {timeline : Timeline}
    (asked : pace.poll w.timeline = (none, timeline)) {next : Rendering}
    (allows : (Rendering.wait pace next).Allows cell handed (w.timeline.deeds cell) ahead) :
    Spends cell handed ahead w [] [next] { w with timeline } := by
  have events := Pace.events_of_settled asked
  cases allows with
  | apart treats =>
    cases treats with
    | wait other onward => exact .asksOther other events onward
  | wait own onward => exact .settles own events onward le_rfl

/-- A value is asked together with its timer. -/
theorem Spends.race {r left : Race} {timeline : Timeline}
    (asked : r.poll w.timeline = (.running left, timeline)) {inTime : Rendering}
    {late : Pace → Rendering}
    (allows : (Rendering.race r inTime late).Allows cell handed (w.timeline.deeds cell) ahead) :
    Spends cell handed ahead w [] [Rendering.race left inTime late] { w with timeline } := by
  obtain ⟨before, asks⟩ := Race.pace_of_poll (.inr ⟨left.timer, asked⟩)
  have events := r.events_poll w.timeline
  have label := Pace.label_of_poll asks
  rw [asked, asks] at events
  cases allows with
  | apart treats =>
    cases treats with
    | race other ofInTime ofLate =>
      exact .asksOther other events (.race (label ▸ other) ofInTime fun pace same =>
        ofLate pace (same.trans label))
  | race own ofInTime ofLate =>
    rw [← Multiset.singleton_add]
    refine .asks own events (Pace.begun_of_poll asks) ?_
    rw [Multiset.singleton_add]
    exact .race (label ▸ own) ofInTime fun pace same => ofLate pace (same.trans label)

/-- A value is asked, and its timer is first. -/
theorem Spends.late {r : Race} {pace : Pace} {timeline : Timeline}
    (asked : r.poll w.timeline = (.timedOut pace, timeline)) {inTime : Rendering}
    {late : Pace → Rendering}
    (allows : (Rendering.race r inTime late).Allows cell handed (w.timeline.deeds cell) ahead) :
    Spends cell handed ahead w [] [late pace] { w with timeline } := by
  obtain ⟨before, asks⟩ := Race.pace_of_poll (.inl asked)
  have events := r.events_poll w.timeline
  have label := Pace.label_of_poll asks
  rw [asked, asks] at events
  cases allows with
  | apart treats =>
    cases treats with
    | race other ofInTime ofLate => exact .asksOther other events (ofLate pace label)
  | race own ofInTime ofLate =>
    rw [← Multiset.singleton_add]
    refine .asks own events (Pace.begun_of_poll asks) ?_
    rw [Multiset.singleton_add]
    exact .of_late (label ▸ own) (ofLate pace label)

/-- A value is asked together with its timer, and settles. -/
theorem Spends.inTime {r : Race} {timeline : Timeline}
    (asked : r.poll w.timeline = (.settled, timeline)) {inTime : Rendering}
    {late : Pace → Rendering}
    (allows : (Rendering.race r inTime late).Allows cell handed (w.timeline.deeds cell) ahead) :
    Spends cell handed ahead w [] [inTime] { w with timeline } := by
  have events := Race.events_of_settled asked
  cases allows with
  | apart treats =>
    cases treats with
    | race other ofInTime ofLate => exact .asksOther other events ofInTime
  | race own ofInTime ofLate =>
    exact .settles own events ofInTime (Multiset.le_cons_self _ _)

/-- A step does nothing with a content but what is ahead of it. -/
theorem Step.spends (step : Step r w more r' w')
    (allows : r.Allows cell handed (w.timeline.deeds cell) ahead) :
    Spends cell handed ahead w more [r'] w' := by
  induction step generalizing ahead with
  | note event next w => exact .note allows
  | claim fresh next => exact .claim fresh allows
  | refuse => exact .silently rfl rfl (.apart (.failed _)) (Multiset.zero_le _)
  | number size next w =>
    cases allows with
    | apart treats =>
      cases treats with
      | number onward => exact .silently rfl rfl (.apart (onward _)) le_rfl
  | outstanding next w =>
    cases allows with
    | apart treats =>
      cases treats with
      | outstanding onward => exact .silently rfl rfl (.apart (onward _)) le_rfl
  | register content next w => exact .register allows
  | wait asked next => exact .wait asked allows
  | settle asked next => exact .settle asked allows
  | race asked inTime late => exact .race asked allows
  | inTime asked inTime late => exact .inTime asked allows
  | late asked inTime late => exact .late asked allows
  | part _ before after next ih =>
    obtain ⟨ofParts, onward⟩ := allows.join_inv
    obtain ⟨first, here, last, rfl, ofBefore, ofPart, ofAfter⟩ := ofParts.middle
    exact ((ih ofPart).beside ofBefore ofAfter).imp fun allows => .single (.join allows onward)
  | complete stands next w =>
    exact .silently rfl rfl (.apart (allows.join_inv.2 _)) (Multiset.zero_le _)
  | failPart => exact .silently rfl rfl (.apart (.failed _)) (Multiset.zero_le _)
  | panicPart => exact .silently rfl rfl (.apart (.panicked _)) (Multiset.zero_le _)
  | body _ next ih =>
    obtain ⟨ofBody, onward⟩ := allows.attempt_inv
    exact (ih ofBody).imp fun allows => .single (.attempt allows.of_single onward)
  | succeed | recover =>
    exact .silently rfl rfl (.apart (allows.attempt_inv.2 _)) (Multiset.zero_le _)
  | panicBody => exact .silently rfl rfl (.apart (.panicked _)) (Multiset.zero_le _)

end Rendering

end ProgressiveHtml
