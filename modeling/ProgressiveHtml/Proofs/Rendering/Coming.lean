import Mathlib.Order.WellFounded
import ProgressiveHtml.Proofs.EventLoop.Company
import ProgressiveHtml.Proofs.EventLoop.Racing
import ProgressiveHtml.Proofs.Rendering.Effort

namespace ProgressiveHtml

/-!
# Renderings — what is to come, and when

Where nothing can be deferred and nothing fails, it can be told beforehand to which text a rendering
comes, and when: siblings are there when the last of them is, and everything else takes the time of what
it waits for.

* `EventLoop.Unspent` — contents that can still be used up;
* `EventLoop.NothingDeferred` — no fragment goes to the registry, and no fallback is called;
* `Rendering.ComesTo`, `Rendering.ComeTo` — the text of a rendering, and when it is there;
* `Rendering.ComesTo.poll` — asking the rendering keeps what was told;
* `Rendering.ComesTo.endsAt`, `Rendering.ComesTo.runWithin` — how the rendering ends.
-/

/-! ### Contents and slots -/

/-- Contents that are told apart and are not used up. -/
structure EventLoop.Unspent (own : List Nat) (w : EventLoop) : Prop where
  distinct : own.Nodup
  unused : ∀ cell ∈ own, cell ∉ w.used
  known : ∀ cell ∈ own, cell < w.cells
  numbered : ∀ cell ∈ w.used, cell < w.cells

namespace EventLoop.Unspent

variable {w : EventLoop} {own others : List Nat}

theorem perm (unspent : w.Unspent own) (same : own.Perm others) : w.Unspent others where
  distinct := same.nodup_iff.1 unspent.distinct
  unused cell isOther := unspent.unused cell (same.mem_iff.2 isOther)
  known cell isOther := unspent.known cell (same.mem_iff.2 isOther)
  numbered := unspent.numbered

theorem append_nil (unspent : w.Unspent own) : w.Unspent (own ++ []) :=
  (List.append_nil own).symm ▸ unspent

theorem swap {more : List Nat} (unspent : w.Unspent (own ++ (more ++ others))) :
    w.Unspent (more ++ (own ++ others)) := by
  refine unspent.perm ?_
  simpa only [List.append_assoc] using
    (List.perm_append_comm : (own ++ more).Perm (more ++ own)).append_right others

/-- Something is written to the journal, or time passes. -/
theorem timeline (unspent : w.Unspent own) (timeline : Timeline) :
    EventLoop.Unspent own { w with timeline } :=
  ⟨unspent.distinct, unspent.unused, unspent.known, unspent.numbered⟩

/-- One of the contents is used up. -/
theorem claim {cell : Nat} (unspent : w.Unspent (cell :: others)) :
    EventLoop.Unspent others { w with used := cell :: w.used } where
  distinct := (List.nodup_cons.1 unspent.distinct).2
  unused other isOther isUsed := by
    obtain rfl | before := List.mem_cons.1 isUsed
    · exact (List.nodup_cons.1 unspent.distinct).1 isOther
    · exact unspent.unused other (List.mem_cons_of_mem _ isOther) before
  known other isOther := unspent.known other (List.mem_cons_of_mem _ isOther)
  numbered other isUsed := by
    obtain rfl | before := List.mem_cons.1 isUsed
    · exact unspent.known other List.mem_cons_self
    · exact unspent.numbered other before

/-- Contents are numbered. -/
theorem number (unspent : w.Unspent others) (size : Nat) :
    EventLoop.Unspent (List.range' w.cells size ++ others) { w with cells := w.cells + size } where
  distinct := by
    refine List.nodup_append.2 ⟨List.nodup_range', unspent.distinct, fun cell isNew other isOther => ?_⟩
    have known := unspent.known other isOther
    have fresh := (List.mem_range'_1.1 isNew).1
    omega
  unused cell isOwn isUsed := by
    obtain isNew | isOther := List.mem_append.1 isOwn
    · exact absurd (unspent.numbered cell isUsed) (Nat.not_lt.2 (List.mem_range'_1.1 isNew).1)
    · exact unspent.unused cell isOther isUsed
  known cell isOwn := by
    obtain isNew | isOther := List.mem_append.1 isOwn
    · exact (List.mem_range'_1.1 isNew).2
    · exact Nat.lt_add_right size (unspent.known cell isOther)
  numbered cell isUsed := Nat.lt_add_right size (unspent.numbered cell isUsed)

end EventLoop.Unspent

/-- Nothing is deferred between two states: the registry is what it was, no slot was given out, and no
    fallback was called. -/
structure EventLoop.NothingDeferred (w w' : EventLoop) : Prop where
  registry : w'.registry = w.registry
  registrations : w'.timeline.registrations = w.timeline.registrations
  placements : w'.timeline.placements = w.timeline.placements

namespace EventLoop.NothingDeferred

variable {w w' w'' : EventLoop}

theorem refl (w : EventLoop) : w.NothingDeferred w := ⟨rfl, rfl, rfl⟩

theorem trans (first : w.NothingDeferred w') (second : w'.NothingDeferred w'') : w.NothingDeferred w'' :=
  ⟨second.registry.trans first.registry, second.registrations.trans first.registrations,
    second.placements.trans first.placements⟩

theorem note (w : EventLoop) {event : Event} (plain : event.Plain) : w.NothingDeferred (w.note event) where
  registry := rfl
  registrations := by
    rw [EventLoop.note, Timeline.registrations_note, plain.1]
    exact List.append_nil _
  placements := by
    rw [EventLoop.note, Timeline.placements_note, plain.2]
    exact List.append_nil _

theorem pace (w : EventLoop) {p : Pace} {left : Option Pace} {timeline : Timeline}
    (asked : p.poll w.timeline = (left, timeline)) : w.NothingDeferred { w with timeline } := by
  have slots := p.slots_poll w.timeline
  rw [asked] at slots
  exact ⟨rfl, slots.1, slots.2⟩

theorem alone (nothing : w.NothingDeferred w') (alone : w.Alone) : w'.Alone :=
  alone.congr nothing.registry

end EventLoop.NothingDeferred

/-! ### Values -/

/-- A running sleep ends ahead, and not after all sleeps. -/
theorem Sleep.Running.exists_alarm {now : Nat} {sleeps : List Sleep} (running : Running now sleeps) :
    ∃ alarm, sleeps.head?.bind alarm? = some alarm ∧ now ≤ alarm.deadline ∧
      ∀ other, alarm.deadline ≤ overAll other sleeps := by
  obtain ⟨ahead, lengths⟩ := running
  rename_i alarm
  refine ⟨alarm, rfl, ahead, fun other => ?_⟩
  have onward : overAll other (.running alarm :: lengths.map idle) = alarm.deadline + lengths.sum :=
    overAll_idle alarm.deadline lengths
  omega

/-- A value on its way that settles waits for a sleep that ends not after it settles. -/
theorem Pace.Awaits.exists_alarm {p : Pace} {now other due : Nat} (awaits : p.Awaits now)
    (isDue : p.due? other = some due) :
    ∃ alarm, p.alarm? = some alarm ∧ now ≤ alarm.deadline ∧ alarm.deadline ≤ due := by
  unfold due? at isDue
  split at isDue
  · cases isDue
  · rename_i ever
    obtain rfl := Option.some.inj isDue
    obtain running | ⟨-, never⟩ := awaits.sleeps
    · obtain ⟨alarm, isRunning, ahead, before⟩ := running.exists_alarm
      exact ⟨alarm, isRunning, ahead, before other⟩
    · exact absurd never ever

/-- The sleeps of a value that has not been asked have not begun. -/
theorem Pace.Unasked.exists_lengths {p : Pace} (unasked : p.Unasked) :
    ∃ lengths : List Nat, p.sleeps = lengths.map .idle := by
  obtain ⟨label, begun, sleeps, never⟩ := p
  induction sleeps with
  | nil => exact ⟨[], rfl⟩
  | cons s rest ih =>
    obtain ⟨lengths, same⟩ := ih fun s isLater => unasked s (List.mem_cons_of_mem _ isLater)
    have idle := unasked s List.mem_cons_self
    cases s with
    | idle length => exact ⟨length :: lengths, congrArg (Sleep.idle length :: ·) same⟩
    | running alarm => cases idle

/-- A value that has not been asked is on time, and settles once its sleeps are over. -/
theorem Pace.Unasked.onTime {p : Pace} (unasked : p.Unasked) (settles : p.never = false) (now : Nat) :
    p.OnTime (some (now + p.ahead 0)) now := by
  obtain ⟨lengths, sleeps⟩ := unasked.exists_lengths
  have length : p.ahead 0 = lengths.sum := by
    simp [ahead, sleeps, Function.comp_def, Sleep.ahead]
  refine ⟨sleeps ▸ .idle lengths, ?_⟩
  rw [due?, settles, if_neg Bool.false_ne_true, sleeps, Sleep.overAll_idle, length]

namespace Rendering

mutual

/-- Asked at an instant and then whenever one of its sleeps ends, the rendering uses up the contents in
    `own` and comes to a text, which is there at the given time. -/
def ComesTo : Rendering → (now : Nat) → (own : List Nat) → (text : String) → (time : Nat) → Prop
  | done markup, now, own, text, time => own = [] ∧ text = markup ∧ time = now
  | note event next, now, own, text, time => event.Plain ∧ next.ComesTo now own text time
  | claim cell next, now, own, text, time =>
    ∃ more, own = cell :: more ∧ next.ComesTo now more text time
  | number size next, now, own, text, time =>
    own = [] ∧ ∀ first, (next first).ComesTo now (List.range' first size) text time
  | wait pace next, now, own, text, time =>
    ∃ due, pace.OnTime (some due) now ∧ next.ComesTo due own text time
  | join parts next, now, own, text, time =>
    ∃ texts latest, ComeTo parts now own texts latest ∧ next texts = done text ∧ time = max now latest
  | _, _, _, _, _ => False
termination_by structural r => r

/-- The same of siblings, each of which uses up contents of its own.  Those that are there already have
    no influence on when the last one is. -/
def ComeTo : List Rendering → (now : Nat) → (own : List Nat) → (texts : List String) →
    (latest : Nat) → Prop
  | [], _, own, texts, latest => own = [] ∧ texts = [] ∧ latest = 0
  | part :: rest, now, own, texts, latest =>
    ∃ mine others text more time later, own = mine ++ others ∧ texts = text :: more ∧
      latest = max time later ∧ ComeTo rest now others more later ∧
      (part = done text ∧ mine = [] ∧ time = 0 ∨ part.ComesTo now mine text time)
termination_by structural parts => parts

end

variable {text : String} {time now : Nat} {own others : List Nat} {w : EventLoop}

/-- What is told of a rendering lies ahead. -/
theorem ComesTo.now_le (r : Rendering) {now : Nat} {own : List Nat}
    (comes : r.ComesTo now own text time) : now ≤ time := by
  induction r using Rendering.rec (motive_2 := fun _ => True) generalizing now own with
  | done => exact Nat.le_of_eq comes.2.2.symm
  | note event next ih => exact ih comes.2
  | claim cell next ih =>
    obtain ⟨more, -, comes⟩ := comes
    exact ih comes
  | number size next ih => exact ih 0 (comes.2 0)
  | wait pace next ih =>
    obtain ⟨due, onTime, comes⟩ := comes
    exact Nat.le_trans onTime.le_due (ih comes)
  | join parts next =>
    obtain ⟨texts, latest, -, -, rfl⟩ := comes
    exact Nat.le_max_left now latest
  | failed | panicked | outstanding | register | race | attempt => exact comes.elim
  | nil | cons => trivial

/-- A rendering that was asked at an instant waits for a sleep, and comes to its text if it is asked by the
    time when the first of its sleeps ends. -/
structure Underway (now : Nat) (r : Rendering) (own : List Nat) (text : String) (time : Nat) : Prop where
  waits : r.isOver = false
  sleeps : ∃ alarm ∈ r.alarms, now < alarm.deadline ∧ alarm.deadline ≤ time
  comes : ∀ later, (∀ alarm ∈ r.alarms, now < alarm.deadline → later ≤ alarm.deadline) →
    r.ComesTo later own text time

/-- What is left of a rendering that was asked at an instant: its text, or something that waits for a
    sleep. -/
inductive Onward (now : Nat) (text : String) (time : Nat) : Rendering → List Nat → Prop
  | there (isDue : time = now) : Onward now text time (done text) []
  | waits {r : Rendering} {own : List Nat} (underway : r.Underway now own text time) :
      Onward now text time r own

/-- What is left of siblings that were asked at an instant. -/
inductive OnwardAll (now : Nat) (texts : List String) (latest : Nat) : List Rendering → List Nat → Prop
  | there (past : latest ≤ now) : OnwardAll now texts latest (texts.map done) []
  | waits {parts : List Rendering} {own : List Nat}
      (waits : ∀ prompt settled, verdictFrom prompt settled parts = .waiting)
      (sleeps : ∃ alarm ∈ alarmsOfAll parts, now < alarm.deadline ∧ alarm.deadline ≤ latest)
      (comes : ∀ later, (∀ alarm ∈ alarmsOfAll parts, now < alarm.deadline → later ≤ alarm.deadline) →
        ComeTo parts later own texts latest) : OnwardAll now texts latest parts own

/-- Siblings that are all there. -/
theorem verdictFrom_there (prompt settled : Bool) (texts : List String) :
    verdictFrom prompt settled (texts.map done) = if settled then .complete texts else .waiting := by
  induction texts with
  | nil => cases settled <;> rfl
  | cons text more ih =>
    rw [List.map_cons, verdictFrom, ih]
    cases settled <;> rfl

theorem comeTo_there (texts : List String) (now : Nat) : ComeTo (texts.map done) now [] texts 0 := by
  induction texts with
  | nil => exact ⟨rfl, rfl, rfl⟩
  | cons text more ih => exact ⟨[], [], text, more, 0, 0, rfl, rfl, rfl, ih, .inl ⟨rfl, rfl, rfl⟩⟩

/-- What is on its way or there does not end its group. -/
theorem Onward.endsGroup {part : Rendering} (onward : Onward now text time part own)
    (prompt settled : Bool) : part.endsGroup prompt settled = false := by
  cases onward with
  | there => rfl
  | waits underway => exact endsGroup_of_waits underway.waits prompt settled

variable {rest : List Rendering} {more : List String} {later : Nat}

/-- A sibling that is there stands in front of others. -/
theorem OnwardAll.cons_there (onward : OnwardAll now more later rest own) (past : time ≤ now) :
    OnwardAll now (text :: more) (max time later) (done text :: rest) own := by
  cases onward with
  | there laterPast => exact .there (Nat.max_le.2 ⟨past, laterPast⟩)
  | waits waits sleeps comes =>
    obtain ⟨alarm, isRunning, ahead, inTime⟩ := sleeps
    have isLater : max time later = max 0 later := by omega
    refine .waits (fun prompt settled => by rw [verdictFrom, waits])
      ⟨alarm, isRunning, ahead, Nat.le_trans inTime (Nat.le_max_right _ _)⟩ fun instant stops => ?_
    exact ⟨[], own, text, more, 0, later, rfl, rfl, isLater, comes instant stops, .inl ⟨rfl, rfl, rfl⟩⟩

/-- A sibling that is on its way, or just there, stands in front of others. -/
theorem Onward.cons {part : Rendering} {mine : List Nat} (first : Onward now text time part mine)
    (onward : OnwardAll now more later rest own) :
    OnwardAll now (text :: more) (max time later) (part :: rest) (mine ++ own) := by
  cases first with
  | there isDue => exact onward.cons_there (Nat.le_of_eq isDue)
  | waits underway =>
    obtain ⟨waits, sleeps, comes⟩ := underway
    obtain ⟨alarm, isRunning, ahead, inTime⟩ := sleeps
    -- Siblings that are all there have nothing more to come, so that the first alone is waited for.
    have others : (∀ prompt, verdictFrom prompt false rest = .waiting) ∧ ∃ further,
        max time later = max time further ∧
        ∀ instant, (∀ alarm ∈ alarmsOfAll rest, now < alarm.deadline → instant ≤ alarm.deadline) →
          ComeTo rest instant own more further := by
      cases onward with
      | there past =>
        refine ⟨fun prompt => verdictFrom_there prompt false more, 0, by omega, fun instant _ => ?_⟩
        exact comeTo_there more instant
      | waits waits _ comes => exact ⟨fun prompt => waits prompt false, later, rfl, comes⟩
    obtain ⟨unsettled, further, isLatest, othersCome⟩ := others
    refine .waits (fun prompt settled => by rw [verdictFrom_of_waits waits, unsettled])
      ⟨alarm, List.mem_append_left _ isRunning, ahead, Nat.le_trans inTime (Nat.le_max_left _ _)⟩
      fun instant stops => ?_
    exact ⟨mine, own, text, more, time, further, rfl, rfl, isLatest,
      othersCome instant fun alarm there => stops alarm (List.mem_append_right _ there),
      .inr (comes instant fun alarm here => stops alarm (List.mem_append_left _ here))⟩

mutual

/-- Asking a rendering defers nothing, and leaves what was told of it. -/
theorem ComesTo.poll (r : Rendering) {w : EventLoop} {own others : List Nat} {text : String}
    {time : Nat} (comes : r.ComesTo w.now own text time) (unspent : w.Unspent (own ++ others)) :
    w.NothingDeferred (r.poll w).2 ∧ ∃ left, (r.poll w).2.Unspent (left ++ others) ∧
      Onward w.now text time (r.poll w).1 left := by
  cases r with
  | done markup =>
    obtain ⟨rfl, rfl, rfl⟩ := comes
    exact ⟨.refl w, [], unspent, .there rfl⟩
  | note event next =>
    obtain ⟨plain, comes⟩ := comes
    obtain ⟨nothing, onward⟩ := comes.poll next (w := w.note event) (unspent.timeline _)
    exact ⟨(EventLoop.NothingDeferred.note w plain).trans nothing, onward⟩
  | claim cell next =>
    obtain ⟨more, rfl, comes⟩ := comes
    have unused : cell ∉ w.used := unspent.unused cell List.mem_cons_self
    rw [poll, if_neg unused]
    obtain ⟨nothing, onward⟩ :=
      comes.poll next (w := { w with used := cell :: w.used }) unspent.claim
    exact ⟨⟨nothing.registry, nothing.registrations, nothing.placements⟩, onward⟩
  | number size next =>
    obtain ⟨rfl, comes⟩ := comes
    obtain ⟨nothing, onward⟩ := (comes w.cells).poll (next w.cells)
      (w := { w with cells := w.cells + size }) (unspent.number size)
    exact ⟨⟨nothing.registry, nothing.registrations, nothing.placements⟩, onward⟩
  | wait pace next =>
    obtain ⟨due, onTime, comes⟩ := comes
    rw [poll]
    obtain ⟨polled, isDue⟩ | ⟨left, timeline, polled, awaits, isDue, -⟩ := onTime.poll <;>
      have nothing := EventLoop.NothingDeferred.pace w polled <;> rw [polled]
    · obtain rfl := Option.some.inj isDue
      -- The value is there, and asking it has taken no time.
      have same : EventLoop.now { w with timeline := pace.forecast w.timeline } = w.now := by
        have same := pace.poll_now w.timeline
        rwa [polled] at same
      have comes : next.ComesTo (EventLoop.now { w with timeline := pace.forecast w.timeline }) own text
          time := same.symm ▸ comes
      rw [← same]
      obtain ⟨nothingThen, onward⟩ := comes.poll next (unspent.timeline _)
      exact ⟨nothing.trans nothingThen, onward⟩
    · refine ⟨nothing, own, unspent.timeline _, ?_⟩
      obtain ⟨alarm, isRunning, ahead, inTime⟩ := awaits.exists_alarm isDue
      refine .waits ⟨rfl, ⟨alarm, Option.mem_toList.2 isRunning, ahead, ?_⟩, fun later stops => ?_⟩
      · exact Nat.le_trans inTime (comes.now_le next)
      · exact ⟨due, awaits.onward isDue fun alarm isRunning =>
          stops alarm (Option.mem_toList.2 isRunning), comes⟩
  | join parts next =>
    obtain ⟨texts, latest, comes, written, rfl⟩ := comes
    obtain ⟨nothing, left, unspent, onward⟩ :=
      comes.pollAll parts unspent (isPrompt parts.length) true
    rw [poll_join]
    generalize (pollAll (isPrompt parts.length) true parts w).1 = parts' at onward
    cases onward with
    | there past =>
      rw [verdict, verdictFrom_there, if_pos rfl]
      dsimp only
      rw [written]
      exact ⟨nothing, [], unspent, .there (Nat.max_eq_left past)⟩
    | waits waits sleeps comes =>
      rw [verdict, waits]
      obtain ⟨alarm, isRunning, ahead, inTime⟩ := sleeps
      refine ⟨nothing, left, unspent,
        .waits ⟨rfl, ⟨alarm, isRunning, ahead, by omega⟩, fun later stops => ?_⟩⟩
      -- Time passes no further than to the end of this sleep, which is in time.
      have passed := stops alarm isRunning ahead
      exact ⟨texts, latest, comes later stops, written, by omega⟩
  | failed | panicked | outstanding | register | race | attempt => exact comes.elim
termination_by structural r

/-- So it is with siblings. -/
theorem ComeTo.pollAll (parts : List Rendering) {w : EventLoop} {own others : List Nat}
    {texts : List String} {latest : Nat} (comes : ComeTo parts w.now own texts latest)
    (unspent : w.Unspent (own ++ others)) (prompt settled : Bool) :
    w.NothingDeferred (pollAll prompt settled parts w).2 ∧
      ∃ left, (pollAll prompt settled parts w).2.Unspent (left ++ others) ∧
        OnwardAll w.now texts latest (pollAll prompt settled parts w).1 left := by
  cases parts with
  | nil =>
    obtain ⟨rfl, rfl, rfl⟩ := comes
    exact ⟨.refl w, [], unspent, .there (Nat.zero_le _)⟩
  | cons part rest =>
    obtain ⟨mine, own, text, more, time, later, rfl, rfl, rfl, comes, first⟩ := comes
    rw [List.append_assoc] at unspent
    -- The first sibling, which may have been there before, and what it adds to the others.
    have asked : w.NothingDeferred (part.poll w).2 ∧ ∃ left,
        (part.poll w).2.Unspent (left ++ (own ++ others)) ∧
        (part.poll w).1.endsGroup prompt settled = false ∧
        ∀ {rest' own'}, OnwardAll w.now more later rest' own' →
          OnwardAll w.now (text :: more) (max time later) ((part.poll w).1 :: rest') (left ++ own') := by
      obtain ⟨rfl, rfl, rfl⟩ | comes := first
      · exact ⟨.refl w, [], unspent, rfl, fun onward => onward.cons_there (Nat.zero_le _)⟩
      · obtain ⟨nothing, left, unspent, onward⟩ := comes.poll part unspent
        exact ⟨nothing, left, unspent, onward.endsGroup prompt settled, onward.cons⟩
    obtain ⟨nothing, left, unspent, goesOn, further⟩ := asked
    rw [pollAll_cons, goesOn, if_neg Bool.false_ne_true]
    rw [← part.poll_now w] at comes further ⊢
    obtain ⟨nothingThen, left', unspent, onward⟩ :=
      comes.pollAll rest unspent.swap prompt (settled && (part.poll w).1.isDone)
    refine ⟨nothing.trans nothingThen, left ++ left', ?_, further onward⟩
    rw [List.append_assoc]
    exact unspent.swap
termination_by structural parts

end

/-! ### To the end -/

/-- Of several sleeps one is over first. -/
theorem exists_first_alarm {alarms : List Alarm} {alarm : Alarm} (isRunning : alarm ∈ alarms) :
    ∃ first ∈ alarms, ∀ other ∈ alarms, first.deadline ≤ other.deadline := by
  obtain ⟨first, isOne, isFirst⟩ :=
    (measure Alarm.deadline).wf.has_min {other | other ∈ alarms} ⟨alarm, isRunning⟩
  exact ⟨first, isOne, fun other isOther => Nat.not_lt.1 (isFirst other isOther)⟩

variable {r : Rendering}

/-- On its own, a rendering ends as was told. -/
theorem ComesTo.endsAt (comes : r.ComesTo w.now own text time) (unspent : w.Unspent own) :
    r.EndsAt w (done text) time := by
  induction ahead : time - w.now using Nat.strong_induction_on generalizing r w own with
  | h left ih =>
    subst ahead
    obtain ⟨-, left, unspent, onward⟩ := comes.poll r unspent.append_nil
    have rests := r.rests_poll (w := w) rfl
    rcases asked : r.poll w with ⟨r', w'⟩
    rw [asked] at unspent onward rests
    dsimp only at unspent onward rests
    rw [List.append_nil] at unspent
    cases onward with
    | there isDue =>
      rw [endsAt_of_isOver (by rw [asked]; rfl), asked]
      exact ⟨rfl, isDue⟩
    | waits underway =>
      obtain ⟨waits, ⟨alarm, isRunning, -, inTime⟩, comes⟩ := underway
      obtain ⟨first, isRunning', isFirst⟩ := exists_first_alarm isRunning
      have passes : w.now < first.deadline := rests.ahead first isRunning'
      have inTime : first.deadline ≤ time := Nat.le_trans (isFirst alarm isRunning) inTime
      rw [endsAt_of_waiting (by rw [asked]; exact waits), asked, resumesAt_iff isRunning' isFirst]
      exact ih (time - first.deadline) (by omega) (comes _ fun other isOther _ => isFirst other isOther)
        (unspent.timeline _) rfl

/-- Something to wait for that is on its way. -/
theorem awaitable_poll_of_waits {r' : Rendering} {w' : EventLoop} (asked : r.poll w = (r', w'))
    (waits : r'.isOver = false) : awaitable.poll r w = (.pending r', w') := by
  simp only [awaitable, asked]
  cases r' with
  | done | failed | panicked => cases waits
  | _ => rfl

/-- The main task gets the text when it was told, and nothing is deferred meanwhile. -/
theorem ComesTo.runWithin (comes : r.ComesTo w.now own text time) (unspent : w.Unspent own)
    (alone : w.Alone) (turns : Nat) {patience : Nat} (patient : time ≤ w.now + patience) :
    ∃ after, r.runWithin turns patience w = (.ok (some (.ok text)), after) ∧ after.now = time ∧
      w.NothingDeferred after := by
  -- Until it is due, the rendering is on its way and what was told of it holds.
  obtain ⟨last, before, rounds, ⟨mine, comes, unspent, nothing⟩, isDue, same⟩ :=
    EventLoop.wait_reaches Rendering.awaitable turns
      (P := fun r' w' => ∃ own', r'.ComesTo w'.now own' text time ∧ w'.Unspent own' ∧
        w.NothingDeferred w') patient
      (fun kept => by
        obtain ⟨own', comes, -⟩ := kept
        exact comes.now_le)
      (by
        rintro r' v ⟨own', comes, unspent, nothing⟩ early
        obtain ⟨nothingThen, left, unspent, onward⟩ :=
          comes.poll r' unspent.append_nil
        have same := r'.poll_now v
        rcases asked : r'.poll v with ⟨r'', v'⟩
        rw [asked] at nothingThen unspent onward same
        dsimp only at nothingThen unspent onward same
        rw [List.append_nil] at unspent
        cases onward with
        | there isDue => omega
        | waits underway =>
          have nothing := nothing.trans nothingThen
          refine ⟨r'', v', ?_, nothing.alone alone, same, fun later stops =>
            ⟨left, underway.comes later stops, unspent.timeline _, ⟨nothing.registry, nothing.registrations,
              nothing.placements⟩⟩⟩
          exact awaitable_poll_of_waits asked underway.waits)
      ⟨own, comes, unspent, .refl w⟩
  obtain ⟨nothingThen, left, -, onward⟩ := comes.poll last unspent.append_nil
  have now := last.poll_now before
  rcases asked : last.poll before with ⟨r', after⟩
  rw [asked] at nothingThen onward now
  dsimp only at nothingThen onward now
  cases onward with
  | waits underway =>
    obtain ⟨alarm, -, ahead, inTime⟩ := underway.sleeps
    omega
  | there =>
    refine ⟨after, ?_, now.trans isDue, nothing.trans nothingThen⟩
    have polled : Rendering.awaitable.poll last before = (.ready (.ok text) (.done text), after) := by
      simp only [awaitable, asked]
    rw [Rendering.runWithin, same, EventLoop.waitRounds, polled]

end Rendering

end ProgressiveHtml
