import ProgressiveHtml.Proofs.Rendering.Ensures
import ProgressiveHtml.Proofs.Rendering.Plan

namespace ProgressiveHtml

/-!
# Renderings — going on according to plan

Wherever the value of a content is, going on with it does what the plan says for the present instant
and leaves the rest of the plan.  Using up a content begins its plan.

* `Rendering.Keeps` — a rendering that goes on according to plan;
* `Rendering.keeps_wait`, `Rendering.keeps_race`, `Rendering.keeps_late` — the value of the content;
* `Rendering.Holds.keepsPlan` — renderings go on according to plan;
* `Rendering.Treats.evaluates` — what begins when a content is used up.
-/

namespace Rendering

open EventLoop

variable {cell : Nat} {due : Multiset (Nat × Moment)} {r r' : Rendering} {w w' : EventLoop}

/-- When a rendering goes on, what is due happens or is left; what is left is held to, since the content
    has been used up. -/
structure Keeps (cell : Nat) (due : Multiset (Nat × Moment)) (r : Rendering) (w : EventLoop) :
    Prop where
  holds : (r.poll w).1.Holds cell (w.now + 1)
  balance : w.Balance cell due ((r.poll w).1.plan cell w.now) (r.poll w).2
  used : cell ∈ (r.poll w).2.used

namespace Keeps

/-- Something happens before a rendering goes on. -/
theorem after {gone : Multiset (Nat × Moment)} (polled : r.poll w = r'.poll w')
    (passes : w.Passes cell gone w') (keeps : Keeps cell due r' w') :
    Keeps cell (gone + due) r w := by
  obtain ⟨holds, balance, used⟩ := keeps
  rw [passes.atOnce.now] at holds balance
  rw [← polled] at holds balance used
  exact ⟨holds, (Balance.of_passes passes due).trans balance, used⟩

/-- Nothing happens to the content before a rendering goes on. -/
theorem later (keeps : Keeps cell due r' w') (polled : r.poll w = r'.poll w')
    (passes : w.Passes cell 0 w') : Keeps cell due r w :=
  zero_add due ▸ after polled passes keeps

/-- A rendering goes on apart from the content, after its own moment has come. -/
theorem of_polls {shown : Option Moment} (polls : r.PollsIn cell shown w) (taken : r.TakenIn w)
    (used : cell ∈ w.used) : Keeps cell (Moment.at w.now shown) r w := by
  obtain ⟨treats, passes⟩ := polls taken (.inl used)
  refine ⟨.apart treats, ?_, passes.atOnce.used used⟩
  rw [treats.plan_eq_zero rfl]
  simpa using Balance.of_passes passes 0

/-- A rendering stops where it is. -/
theorem of_poll (polled : r.poll w = (r', w')) (holds : r'.Holds cell (w.now + 1))
    (balance : w.Balance cell due (r'.plan cell w.now) w') (used : cell ∈ w'.used) :
    Keeps cell due r w := by
  constructor <;> rw [polled]
  · exact holds
  · exact balance
  · exact used

/-- A rendering goes on apart from the content after something else. -/
theorem onward (polled : r.poll w = r'.poll w') (balance : w.Balance cell due 0 w')
    (treats : r'.Treats cell .apart) (taken : r'.TakenIn w') (used : cell ∈ w'.used) :
    Keeps cell due r w := by
  obtain ⟨holds, later, used⟩ := of_polls (treats.polls w') taken used
  rw [balance.atOnce.now] at holds later
  exact of_poll (polled.trans rfl) holds (balance.trans later) used

end Keeps

/-! ### The value of the content -/

/-- None of the sleeps of a value and its timer has been overslept. -/
def Timely (now : Nat) : Rendering → Prop
  | wait pace _ => Sleep.Timely now pace.sleeps
  | race r _ _ => Sleep.Timely now r.pace.sleeps ∧ Sleep.Timely now [r.timer]
  | _ => False

/-- What happens when a value is asked for the first time. -/
def opening (now : Nat) : Rendering → Multiset (Nat × Moment)
  | wait pace _ => Moment.at now (if pace.begun then none else some .started)
  | race r _ _ => Moment.at now (if r.pace.begun then none else some .started)
  | _ => 0

theorem Awaits.timely {now : Nat} (awaits : r.Awaits now) : r.Timely now := by
  cases r with
  | wait pace next => exact Pace.Awaits.timely awaits
  | race r inTime late => exact ⟨awaits.1.timely, .running awaits.2⟩
  | _ => exact awaits

theorem Awaits.opening_eq_zero {now : Nat} (awaits : r.Awaits now) (time : Nat) :
    r.opening time = 0 := by
  cases r with
  | wait pace next => simp [opening, Pace.Awaits.begun awaits]
  | race r inTime late => simp [opening, awaits.1.begun]
  | _ => rfl

/-- A value that is waited for goes on according to plan. -/
theorem keeps_wait {pace : Pace} {next : Rendering} {shown : Option Moment}
    (own : pace.label.cell = some cell) (onward : next.Treats cell (.settled shown))
    (timely : Sleep.Timely w.now pace.sleeps) (used : cell ∈ w.used)
    (taken : (wait pace next).TakenIn w) :
    Keeps cell ((wait pace next).opening w.now + (wait pace next).plan cell w.now)
      (wait pace next) w := by
  have passes := Passes.pace cell w pace
  have started : (Event.started pace.label).about cell = some .started := Event.about_own rfl own
  have settled : (Event.settled pace.label).about cell = some .settled := Event.about_own rfl own
  simp only [plan, if_pos own, onward.shown_eq, Pace.plan]
  obtain ⟨timeline, asked, isDue⟩ | ⟨left, timeline, asked, awaits, same⟩ := Pace.poll_cases timely
  · -- The value settles, and what is shown of it happens at once.
    rw [show pace.due? w.now = some w.now from isDue]
    simp only [asked, started, settled, if_true, Moment.at_some] at passes
    have polled : (wait pace next).poll w = next.poll { w with timeline } := by simp [poll, asked]
    have shows := Keeps.of_polls (onward.polls { w with timeline })
      (taken.step (.settle asked next)) (passes.atOnce.used used)
    have keeps := Keeps.after polled passes shows
    rw [passes.atOnce.now, add_assoc] at keeps
    exact keeps
  · simp only [asked, started, reduceCtorEq, if_false, Moment.at_none, add_zero] at passes
    have polled : (wait pace next).poll w = (wait left next, { w with timeline }) := by
      simp [poll, asked]
    have label : left.label = pace.label := Pace.label_of_poll asked
    have plan : (wait left next).plan cell w.now = left.plan w.now shown := by
      rw [Rendering.plan, label, if_pos own, onward.shown_eq]
    refine .of_poll polled (.own (.ownWait (label ▸ own) onward) awaits) ?_
      (passes.atOnce.used used)
    rw [plan, Pace.plan, show left.due? w.now = pace.due? w.now from same]
    exact Balance.of_passes passes _

/-- What a fragment does that is late: it is handed in as it is, then its fallback is called. -/
theorem Treats.late_inv {shown : Option Moment} {pace : Pace}
    (treats : r.Treats cell (.late shown pace)) : ∃ content next told : Nat → Rendering,
      r = Rendering.register content next ∧ (∀ slot, content slot = Rendering.wait pace (told slot)) ∧
        (∀ slot, (told slot).Treats cell (.settled shown)) ∧
          ∀ slot, (next slot).Treats cell (.placing True slot) := by
  cases treats with
  | handIn waits ofTold onward => exact ⟨_, _, _, rfl, waits, ofTold, onward⟩

/-- A fragment that is late goes on according to plan: its value is as far as it was. -/
theorem keeps_late {shown : Option Moment} {pace : Pace} (treats : r.Treats cell (.late shown pace))
    (own : pace.label.cell = some cell) (awaits : pace.Awaits (w.now + 1)) (used : cell ∈ w.used)
    (taken : r.TakenIn w) : Keeps cell ({(w.now, .fallback)} + pace.plan w.now shown) r w := by
  obtain ⟨content, next, told, rfl, waits, ofTold, onward⟩ := treats.late_inv
  obtain ⟨label, rest, placing, named, treats⟩ := (onward w.registry.next).place_inv
  obtain ⟨atOnce, moments, tasks, -⟩ :=
    Passes.handIn cell content taken.register label
  have called : (Event.fallback label w.registry.next).about cell = some .fallback :=
    Event.about_own rfl (by simpa using named)
  rw [called, Moment.at_some] at moments
  -- The fragment that is handed in waits for the value.
  have handed : w.Balance cell ({(w.now, .fallback)} + pace.plan w.now shown) 0
      ((w.register content).2.note (.fallback label w.registry.next)) := by
    refine ⟨atOnce, _, tasks, ?_, _, moments, ?_⟩
    · simp only [List.mem_singleton, forall_eq]
      rw [waits]
      exact .own (.ownWait own (ofTold _)) awaits
    · simp [FragmentTask.planOfAll, planOfAll, waits, plan, own, (ofTold w.registry.next).shown_eq]
  have polled : (register content next).poll w =
      rest.poll ((w.register content).2.note (.fallback label w.registry.next)) := by
    rw [poll, EventLoop.register_fst, placing, poll]
  exact .onward polled handed treats (.inr (atOnce.closed.trans taken.register))
    (atOnce.used used)

/-- A value with a timeout goes on according to plan. -/
theorem keeps_race {r : Race} {inTime : Rendering} {late : Pace → Rendering}
    {shown : Option Moment} (own : r.pace.label.cell = some cell)
    (ofInTime : inTime.Treats cell (.settled shown))
    (ofLate : ∀ pace, pace.label = r.pace.label → (late pace).Treats cell (.late shown pace))
    (timely : Sleep.Timely w.now r.pace.sleeps) (timer : Sleep.Timely w.now [r.timer])
    (used : cell ∈ w.used) (taken : (race r inTime late).TakenIn w) :
    Keeps cell ((race r inTime late).opening w.now + (race r inTime late).plan cell w.now)
      (race r inTime late) w := by
  have passes := Passes.race cell w r
  have started : (Event.started r.pace.label).about cell = some .started := Event.about_own rfl own
  have settled : (Event.settled r.pace.label).about cell = some .settled := Event.about_own rfl own
  simp only [plan, if_pos own, ofInTime.shown_eq]
  obtain ⟨timeline, asked, isDue⟩ | ⟨pace, timeline, asked, awaits, same, isDue⟩ |
    ⟨pace, left, timeline, asked, awaits, same, running, sameTimer⟩ := Race.poll_cases timely timer
  · -- The value is in time, and what is shown of it happens at once.
    have isDue : r.pace.due? w.now = some w.now := isDue
    have notLate : w.now ≤ r.timer.endsAt w.now := timer.le_overAll
    simp only [asked, started, settled, if_true, Moment.at_some] at passes
    have polled : (race r inTime late).poll w = inTime.poll { w with timeline } := by
      simp [poll, asked]
    have shows := Keeps.of_polls (ofInTime.polls { w with timeline })
      (taken.step (.inTime asked inTime late)) (passes.atOnce.used used)
    have keeps := Keeps.after polled passes shows
    rw [passes.atOnce.now, add_assoc] at keeps
    simpa [isDue, notLate, Race.plan, Pace.plan, opening] using keeps
  · -- The timer is first, so the value is due later.
    have isDue : r.timer.endsAt w.now = w.now := isDue
    have later : (r.pace.due? w.now).any (· ≤ r.timer.endsAt w.now) = false := by
      rw [← show pace.due? w.now = r.pace.due? w.now from same, isDue]
      cases due : pace.due? w.now with
      | none => rfl
      | some time =>
        have ahead := awaits.le_due ((awaits.due_eq w.now).symm.trans due)
        simp only [Option.any_some, decide_eq_false_iff_not, Nat.not_le]
        exact ahead
    simp only [asked, started, reduceCtorEq, if_false, Moment.at_none, add_zero] at passes
    have polled : (race r inTime late).poll w = (late pace).poll { w with timeline } := by
      simp [poll, asked]
    have label : pace.label = r.pace.label := Race.label_of_poll (.inl asked)
    have keeps := Keeps.after polled passes (keeps_late (ofLate pace label) (label ▸ own)
      (by rwa [passes.atOnce.now]) (passes.atOnce.used used)
      (taken.step (.late asked inTime late)))
    rw [passes.atOnce.now] at keeps
    rw [Race.plan, later, isDue, Pace.plan, ← show pace.due? w.now = r.pace.due? w.now from same]
    exact keeps
  · -- Neither the value nor the timer is there, and the plan is what it was.
    simp only [asked, started, reduceCtorEq, if_false, Moment.at_none, add_zero] at passes
    have polled : (race r inTime late).poll w =
        (race ⟨pace, left⟩ inTime late, { w with timeline }) := by
      simp [poll, asked]
    have label : pace.label = r.pace.label := Race.label_of_poll (.inr ⟨left, asked⟩)
    have plan : (race ⟨pace, left⟩ inTime late).plan cell w.now = r.plan w.now shown := by
      rw [Rendering.plan, label, if_pos own, ofInTime.shown_eq]
      simp only [Race.plan, Pace.plan, show pace.due? w.now = r.pace.due? w.now from same,
        show left.endsAt w.now = r.timer.endsAt w.now from sameTimer]
    refine .of_poll polled (.own (.ownRace (label ▸ own) ofInTime fun pace same =>
      ofLate pace (same.trans label)) ⟨awaits, running⟩) ?_ (passes.atOnce.used used)
    rw [plan]
    exact Balance.of_passes passes _

/-- The value of a content goes on according to plan, once the content is used up. -/
theorem Treats.keeps (treats : r.Treats cell .claimed) (timely : r.Timely w.now)
    (used : cell ∈ w.used) (taken : r.TakenIn w) :
    Keeps cell (r.opening w.now + r.plan cell w.now) r w := by
  cases treats with
  | ownWait own onward => exact keeps_wait own onward timely used taken
  | ownRace own ofInTime ofLate =>
    exact keeps_race own ofInTime ofLate timely.1 timely.2 used taken

/-! ### Groups and attempts -/

/-- Where nothing fails, siblings all have their turn. -/
theorem pollAll_cons_of_unfailing {prompt settled : Bool} {part : Rendering} {rest : List Rendering}
    (calm : Unfailing (askedOfAll prompt settled (part :: rest) w)) : ∃ settledNext,
    pollAll prompt settled (part :: rest) w =
        ((part.poll w).1 :: (pollAll prompt settledNext rest (part.poll w).2).1,
          (pollAll prompt settledNext rest (part.poll w).2).2) ∧
      askedOfAll prompt settled (part :: rest) w =
        part.asked w ++ askedOfAll prompt settledNext rest (part.poll w).2 := by
  have sound := calm.head.sound
  have goesOn : (part.poll w).1.endsGroup prompt settled = false := by
    cases left : (part.poll w).1 <;> simp_all [fails, endsGroup]
  refine ⟨settled && (part.poll w).1.isDone, ?_, ?_⟩
  · simp [pollAll, goesOn]
  · simp [askedOfAll, goesOn]

/-- When its siblings have had their turn, a group goes on. -/
theorem keeps_join {parts parts' : List Rendering} {next : List String → Rendering}
    (polled : pollAll (isPrompt parts.length) true parts w = (parts', w'))
    (holds : ∀ part ∈ parts', part.Holds cell (w.now + 1))
    (balance : w.Balance cell due (planOfAll cell w.now parts') w')
    (onward : ∀ texts, (next texts).Treats cell .apart) (used : cell ∈ w'.used)
    (taken : (join parts next).TakenIn w) (calm : ((join parts next).poll w).1.fails = false) :
    Keeps cell due (join parts next) w := by
  cases stands : verdict parts' with
  | complete texts =>
    obtain ⟨-, rfl⟩ := parts_of_complete stands
    rw [planOfAll_done] at balance
    refine .onward (by simp [poll, polled, stands]) balance (onward texts) ?_ used
    exact (taken.imp_left fun silent => silent.2 texts).imp_right balance.atOnce.closed.trans
  | failed | panicked => simp [poll, polled, stands, fails] at calm
  | waiting => exact .of_poll (by simp [poll, polled, stands]) (.join holds onward) balance used

/-- When its body has had its turn, an attempt goes on. -/
theorem keeps_attempt {body : Rendering} {next : Except RenderError String → Rendering}
    (keeps : Keeps cell due body w) (onward : ∀ result, (next result).Treats cell .apart)
    (taken : (attempt body next).TakenIn w) (calm : (body.poll w).1.fails = false) :
    Keeps cell due (attempt body next) w := by
  obtain ⟨holds, balance, used⟩ := keeps
  rcases polled : body.poll w with ⟨body', w'⟩
  rw [polled] at holds balance used calm
  dsimp only at holds balance used calm
  cases body' with
  | done markup =>
    refine .onward (by simp [poll, polled]) balance (onward (.ok markup)) ?_ used
    exact (taken.imp_left fun silent => silent.2 _).imp_right balance.atOnce.closed.trans
  | failed | panicked => simp [fails] at calm
  | _ => exact .of_poll (by simp [poll, polled]) (.attempt holds onward) balance used

/-! ### After the content was used up -/

/-- Whenever a rendering goes on at an instant, after the content was used up, it goes on according to
    plan. -/
def KeepsPlan (cell now : Nat) (r : Rendering) : Prop :=
  ∀ w : EventLoop, w.now = now → cell ∈ w.used → r.TakenIn w → Unfailing (r.asked w) →
    Keeps cell (r.plan cell now) r w

/-- Siblings go on according to plan. -/
theorem keepsAll (prompt settled : Bool) {parts : List Rendering}
    (keeps : ∀ part ∈ parts, KeepsPlan cell w.now part) (used : cell ∈ w.used)
    (taken : ∀ part ∈ parts, part.TakenIn w)
    (calm : Unfailing (askedOfAll prompt settled parts w)) :
    (∀ part ∈ (pollAll prompt settled parts w).1, part.Holds cell (w.now + 1)) ∧
      w.Balance cell (planOfAll cell w.now parts)
        (planOfAll cell w.now (pollAll prompt settled parts w).1)
        (pollAll prompt settled parts w).2 := by
  induction parts generalizing settled w with
  | nil => exact ⟨fun _ none => absurd none List.not_mem_nil, .of_beside (.refl cell w) 0⟩
  | cons part rest ih =>
    obtain ⟨settledNext, polled, isAsked⟩ := pollAll_cons_of_unfailing calm
    rw [isAsked, Unfailing.unfailing_append] at calm
    have atOnce := part.poll_atOnce w
    obtain ⟨holds, balance, -⟩ :=
      keeps part List.mem_cons_self w rfl used (taken part List.mem_cons_self) calm.1
    obtain ⟨holdsRest, balanceRest⟩ := ih settledNext
      (fun other member => by
        rw [atOnce.now]
        exact keeps other (List.mem_cons_of_mem _ member))
      (atOnce.used used)
      (fun other member => (taken other (List.mem_cons_of_mem _ member)).later atOnce) calm.2
    -- All of this happens at one instant.
    rw [atOnce.now] at holdsRest balanceRest
    rw [polled]
    refine ⟨fun other member => ?_, (balance.add _).trans (balanceRest.add_left _)⟩
    obtain rfl | later := List.mem_cons.1 member
    · exact holds
    · exact holdsRest other later

/-- A rendering goes on according to plan. -/
theorem Holds.keepsPlan {now : Nat} (holds : Holds cell now r) : KeepsPlan cell now r := by
  induction holds with
  | apart treats =>
    intro w _ used taken _
    rw [treats.plan_eq_zero rfl]
    exact Keeps.of_polls (treats.polls w) taken used
  | own treats awaits =>
    rintro w rfl used taken _
    have keeps := treats.keeps awaits.timely used taken
    rwa [awaits.opening_eq_zero, zero_add] at keeps
  | @join parts next _ onward ih =>
    rintro w rfl used taken calm
    have sound := calm.sound
    rw [asked, Unfailing.unfailing_cons, Unfailing.unfailing_append] at calm
    obtain ⟨holds, balance⟩ := keepsAll (isPrompt parts.length) true ih used
      (fun part member => taken.imp_left fun silent => silent_of_mem silent.1 member) calm.2.1
    exact keeps_join rfl holds balance onward (balance.atOnce.used used) taken sound
  | @attempt body next _ onward ih =>
    rintro w rfl used taken calm
    rw [asked, Unfailing.unfailing_cons, Unfailing.unfailing_append] at calm
    have keeps := ih w rfl used (taken.imp_left And.left) calm.2.1
    exact keeps_attempt keeps onward taken calm.2.1.sound

/-! ### Using up the content -/

/-- Whenever a content is used up while a rendering goes on, what is due then happens or is left. -/
def Evaluates (cell : Nat) (due : Multiset (Nat × Moment)) (value : Rendering) (v : EventLoop)
    (r : Rendering) : Prop :=
  ∀ w : EventLoop, (claim cell value, v) ∈ r.asked w → r.TakenIn w → Unfailing (r.asked w) →
    Keeps cell due r w

section

variable {value : Rendering} {v : EventLoop}

/-- Something else happens before the content is used up. -/
theorem Evaluates.after (evaluates : Evaluates cell due value v r') (passes : w.Passes cell 0 w')
    (polled : r.poll w = r'.poll w') (asks : r.asked w = (r, w) :: r'.asked w')
    (isOther : claim cell value ≠ r) (taken : r.TakenIn w → r'.TakenIn w')
    (isAsked : (claim cell value, v) ∈ r.asked w) (isTaken : r.TakenIn w)
    (calm : Unfailing (r.asked w)) :
    Keeps cell due r w := by
  rw [asks, Unfailing.unfailing_cons] at calm
  rw [asks] at isAsked
  have later := (List.mem_cons.1 isAsked).resolve_left fun same => isOther (Prod.mk.inj same).1
  exact (evaluates w' later (taken isTaken) calm.2).later polled passes

/-- What siblings do when one of them uses up the content. -/
theorem evaluatesAll (prompt settled : Bool) {parts : List Rendering}
    (treats : ∀ part ∈ parts, part.Treats cell .apart)
    (evaluates : ∀ part ∈ parts, Evaluates cell due value v part) (fresh : cell ∉ v.used)
    (isAsked : (claim cell value, v) ∈ askedOfAll prompt settled parts w)
    (taken : ∀ part ∈ parts, part.TakenIn w)
    (calm : Unfailing (askedOfAll prompt settled parts w)) :
    (∀ part ∈ (pollAll prompt settled parts w).1, part.Holds cell (w.now + 1)) ∧
      w.Balance cell due
        (planOfAll cell w.now (pollAll prompt settled parts w).1)
        (pollAll prompt settled parts w).2 ∧ cell ∈ (pollAll prompt settled parts w).2.used := by
  induction parts generalizing settled w with
  | nil => cases isAsked
  | cons part rest ih =>
    obtain ⟨settledNext, polled, asks⟩ := pollAll_cons_of_unfailing calm
    rw [asks] at isAsked
    rw [asks, Unfailing.unfailing_append] at calm
    rw [polled]
    have atOnce := part.poll_atOnce w
    have takenPart := taken part List.mem_cons_self
    have takenRest : ∀ other ∈ rest, other.TakenIn (part.poll w).2 := fun other member =>
      (taken other (List.mem_cons_of_mem _ member)).later atOnce
    obtain here | later := List.mem_append.1 isAsked
    · -- The siblings after it go on apart from the content.
      obtain ⟨holds, balance, used⟩ :=
        evaluates part List.mem_cons_self w here takenPart calm.1
      obtain ⟨treatsRest, passes⟩ := pollAll_apart prompt settledNext (w := (part.poll w).2)
        (fun other member => treats other (List.mem_cons_of_mem _ member))
        (fun other member => (treats other (List.mem_cons_of_mem _ member)).polls) takenRest
        (.inl used)
      refine ⟨fun other member => ?_, ?_, passes.atOnce.used used⟩
      · obtain rfl | isLater := List.mem_cons.1 member
        · exact holds
        · exact .apart (treatsRest other isLater)
      · rw [planOfAll, planOfAll_eq_zero fun other member =>
          (treatsRest other member).plan_eq_zero rfl, add_zero]
        exact balance.trans (.of_beside passes _)
    · -- The sibling before it goes on apart from the content.
      have unused : cell ∉ (part.poll w).2.used := fun isUsed =>
        fresh ((askedOfAll_atOnce prompt settledNext rest _ later).used isUsed)
      obtain ⟨treatsPart, passes⟩ :=
        (treats part List.mem_cons_self).polls w takenPart (.inr unused)
      obtain ⟨holds, balance, used⟩ := ih settledNext
        (fun other member => treats other (List.mem_cons_of_mem _ member))
        (fun other member => evaluates other (List.mem_cons_of_mem _ member)) later takenRest calm.2
      rw [atOnce.now] at holds balance
      refine ⟨fun other member => ?_, ?_, used⟩
      · obtain rfl | isLater := List.mem_cons.1 member
        · exact .apart treatsPart
        · exact holds other isLater
      · rw [planOfAll, treatsPart.plan_eq_zero rfl, zero_add]
        exact (Balance.of_beside passes _).trans balance

/-- A group uses up the content in one of its siblings, or when all of them are there. -/
theorem evaluates_join {parts : List Rendering} {next : List String → Rendering}
    (treats : ∀ part ∈ parts, part.Treats cell .apart)
    (evaluates : ∀ part ∈ parts, Evaluates cell due value v part)
    (onward : ∀ texts, (next texts).Treats cell .apart)
    (evaluatesNext : ∀ texts, Evaluates cell due value v (next texts)) (fresh : cell ∉ v.used) :
    Evaluates cell due value v (join parts next) := by
  intro w isAsked taken calm
  have sound := calm.sound
  have takenParts : ∀ part ∈ parts, part.TakenIn w := fun part member =>
    taken.imp_left fun silent => silent_of_mem silent.1 member
  rw [asked_join] at isAsked
  rw [asked_join, Unfailing.unfailing_cons, Unfailing.unfailing_append] at calm
  have later := (List.mem_cons.1 isAsked).resolve_left (by simp)
  obtain inside | outside := List.mem_append.1 later
  · obtain ⟨holds, balance, used⟩ :=
      evaluatesAll (isPrompt parts.length) true treats evaluates fresh inside takenParts calm.2.1
    exact keeps_join rfl holds balance onward used taken sound
  · -- The siblings go on apart from the content.
    have calmNext := calm.2.2
    have siblings := pollAll_apart (isPrompt parts.length) true treats
      (fun part member => (treats part member).polls) takenParts
    cases stands : verdict (pollAll (isPrompt parts.length) true parts w).1 <;>
      rw [stands] at outside calmNext
    case complete texts =>
      have unused : cell ∉ (pollAll (isPrompt parts.length) true parts w).2.used := fun isUsed =>
        fresh (((next texts).asked_atOnce _ outside).used isUsed)
      obtain ⟨-, passes⟩ := siblings (.inr unused)
      have takenNext : (next texts).TakenIn (pollAll (isPrompt parts.length) true parts w).2 :=
        (taken.imp_left fun silent => silent.2 texts).imp_right passes.atOnce.closed.trans
      exact (evaluatesNext texts _ outside takenNext calmNext).later
        (by rw [poll_join, stands]) passes
    all_goals cases outside

/-- An attempt uses up the content in its body, or when its body is there. -/
theorem evaluates_attempt {body : Rendering} {next : Except RenderError String → Rendering}
    (treats : body.Treats cell .apart) (evaluates : Evaluates cell due value v body)
    (onward : ∀ result, (next result).Treats cell .apart)
    (evaluatesNext : ∀ result, Evaluates cell due value v (next result)) (fresh : cell ∉ v.used) :
    Evaluates cell due value v (attempt body next) := by
  intro w isAsked taken calm
  have takenBody : body.TakenIn w := taken.imp_left And.left
  rw [asked_attempt] at isAsked
  rw [asked_attempt, Unfailing.unfailing_cons, Unfailing.unfailing_append] at calm
  have sound := calm.2.1.sound
  have later := (List.mem_cons.1 isAsked).resolve_left (by simp)
  obtain inside | outside := List.mem_append.1 later
  · exact keeps_attempt (evaluates w inside takenBody calm.2.1) onward taken sound
  · -- The body goes on apart from the content.
    have calmNext := calm.2.2
    have inBody := treats.polls w takenBody
    cases stands : (body.poll w).1 <;> rw [stands] at outside calmNext sound
    case done markup =>
      have unused : cell ∉ (body.poll w).2.used := fun isUsed =>
        fresh (((next _).asked_atOnce _ outside).used isUsed)
      obtain ⟨-, passes⟩ := inBody (.inr unused)
      have takenNext : (next (.ok markup)).TakenIn (body.poll w).2 :=
        (taken.imp_left fun silent => silent.2 _).imp_right passes.atOnce.closed.trans
      exact (evaluatesNext (.ok markup) _ outside takenNext calmNext).later
        (by rw [poll_attempt, stands]) passes
    case failed | panicked => simp [fails] at sound
    all_goals cases outside

/-- A rendering that treats a content in the right way goes on according to plan from the moment when
    the content is used up; what is due then is told by the value that begins. -/
theorem Treats.evaluates {stage : Stage} (treats : r.Treats cell stage) (fresh : cell ∉ v.used)
    (begins : value.Treats cell .claimed → value.TakenIn { v with used := cell :: v.used } →
      Keeps cell due value { v with used := cell :: v.used }) :
    match stage with
    | .apart => Evaluates cell due value v r
    | .placing own slot => ∃ label next, r = Rendering.note (.fallback label slot) next ∧
        (label.cell = some cell ↔ own) ∧ Evaluates cell due value v next
    | _ => True := by
  induction treats with
  | done | failed | panicked =>
    intro w isAsked
    simp [asked] at isAsked
  | @note event next other plain _ ih =>
    intro w
    have passes := Passes.note cell w plain
    rw [other] at passes
    exact ih.after passes rfl rfl (by simp) fun taken => taken.step (.note event next w)
  | @claimOther other next isOther onward ih =>
    intro w isAsked taken calm
    by_cases used : other ∈ w.used
    · simp [asked, used, isOther.symm] at isAsked
    · exact ih.after (.silently (Step.claim used next).atOnce rfl rfl) (by simp [poll, used])
        (by simp [asked, used]) (by simp [isOther.symm]) (fun taken => taken.step (.claim used next))
        isAsked taken calm
  | @claim next onward =>
    intro w isAsked taken calm
    rw [asked] at isAsked
    obtain same | later := List.mem_cons.1 isAsked
    · simp only [Prod.mk.injEq, Rendering.claim.injEq, true_and] at same
      obtain ⟨rfl, rfl⟩ := same
      have claimed := Step.claim fresh value
      exact (begins onward (taken.step claimed)).later (by simp [poll, fresh])
        (.silently claimed.atOnce rfl rfl)
    · -- Once it is used up, the content is not used up again.
      split at later
      · cases later
      · exact absurd ((next.asked_atOnce _ later).used List.mem_cons_self) fresh
  | @number size next _ ih =>
    intro w
    exact (ih w.cells).after (.silently (Step.number size next w).atOnce rfl rfl) rfl rfl (by simp)
      fun taken => taken.step (.number size next w)
  | @outstanding next _ ih =>
    intro w
    exact (ih w.registry.pending).after (.refl cell w) rfl rfl (by simp) fun taken =>
      taken.step (.outstanding next w)
  | @register content next handed _ _ ih =>
    intro w isAsked taken calm
    obtain ⟨label, rest, placing, named, evaluates⟩ := ih w.registry.next
    have asks : (Rendering.register content next).asked w =
        (Rendering.register content next, w) ::
          (Rendering.note (.fallback label w.registry.next) rest, (w.register content).2) ::
          rest.asked ((w.register content).2.note (.fallback label w.registry.next)) := by
      rw [asked, EventLoop.register_fst, placing, asked]
    rw [asks] at isAsked calm
    simp only [Unfailing.unfailing_cons] at calm
    have later : (Rendering.claim cell value, v) ∈
        rest.asked ((w.register content).2.note (.fallback label w.registry.next)) := by
      simpa using isAsked
    have passes := Passes.handInOther taken.register named.1 (handed w.registry.next)
    have stillOpen := passes.atOnce.closed.trans taken.register
    exact (evaluates _ later (.inr stillOpen) calm.2.2).later
      (by rw [poll, EventLoop.register_fst, placing, poll]) passes
  | @wait pace next other _ ih =>
    intro w isAsked taken calm
    have passes := Passes.paceOther (w := w) other
    rcases settled : pace.poll w.timeline with ⟨_ | left, timeline⟩ <;> rw [settled] at passes
    · exact ih.after passes (by simp [poll, settled]) (by simp [asked, settled]) (by simp)
        (fun taken => taken.step (.settle settled next)) isAsked taken calm
    · simp [asked, settled] at isAsked
  | @race r inTime late other _ _ ihInTime ihLate =>
    intro w isAsked taken calm
    have passes := Passes.raceOther (w := w) other
    rcases stands : r.poll w.timeline with ⟨_ | pace | left, timeline⟩ <;> rw [stands] at passes
    · exact ihInTime.after passes (by simp [poll, stands]) (by simp [asked, stands]) (by simp)
        (fun taken => taken.step (.inTime stands inTime late)) isAsked taken calm
    · exact (ihLate pace (Race.label_of_poll (.inl stands))).after passes (by simp [poll, stands])
        (by simp [asked, stands]) (by simp) (fun taken => taken.step (.late stands inTime late))
        isAsked taken calm
    · simp [asked, stands] at isAsked
  | join ofParts onward ihParts ih => exact evaluates_join ofParts ihParts onward ih fresh
  | attempt ofBody onward ihBody ih => exact evaluates_attempt ofBody ihBody onward ih fresh
  | ownWait | ownRace | handIn | nothing | report | shows => trivial
  | place named _ ih => exact ⟨_, _, rfl, named, ih⟩

end

end Rendering

end ProgressiveHtml
