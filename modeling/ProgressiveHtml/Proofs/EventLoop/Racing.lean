import ProgressiveHtml.Proofs.EventLoop.Turn
import ProgressiveHtml.Proofs.Rendering.Forecast
import ProgressiveHtml.Waiting

namespace ProgressiveHtml

/-!
# Event loop — racing a value

The main task asks a value, or the race of a value against a timer, whenever one of its sleeps ends.  So
the race is decided by the sum of the delays, and a value that the timer has beaten goes on as if it had
never been raced.

* `EventLoop.Alone`, `EventLoop.waitRounds_reaches` — with no fragment on its way, waiting comes to every
  instant at which a sleep ends;
* `Pace.OnTime`, `Race.OnTime` — nothing has been overslept, and it is known what is due when;
* `Eventual.wait_settles`, `Eventual.race_settles`, `Eventual.race_timesOut` — what waiting comes to;
* `Eventual.race_decides` — what a race comes to, and what comes of the value it hands back.
-/

/-- What waiting comes to, without what is left: an answer, a panic, or nothing. -/
def Waited.answer? {σ α : Type} : Waited σ α → Option (Except String α)
  | ready answer _ => some (.ok answer)
  | panicked message => some (.error message)
  | expired _ => none

/-- What asking comes to, without what is left: an answer, a panic, or nothing. -/
def Polled.answer? {σ α : Type} : Polled σ α → Option (Except String α)
  | ready answer _ => some (.ok answer)
  | panicked message => some (.error message)
  | pending _ => none

/-- What a value comes to once it has taken its time. -/
def Eventual.ending {α : Type} (value : Eventual α) : Except String α :=
  match value.panic? with
  | some message => .error message
  | none => .ok value.result

namespace EventLoop

variable {σ α : Type} {what : Awaitable σ α}

/-- An answer ends the waiting. -/
theorem waitRounds_of_answer (turns limit rounds : Nat) {s : σ} {w after : EventLoop}
    {polled : Polled σ α} {answer : Except String α} (asked : what.poll s w = (polled, after))
    (answered : polled.answer? = some answer) :
    ∃ waited, waitRounds what turns limit (rounds + 1) s w = (waited, after) ∧
      waited.answer? = some answer := by
  rw [waitRounds, asked]
  cases polled with
  | ready => exact ⟨_, rfl, answered⟩
  | panicked => exact ⟨_, rfl, answered⟩
  | pending => cases answered

/-- The answer that ends the waiting is that to the last question. -/
theorem LeavesOff.answer {P : σ → EventLoop → Prop} {waited : Waited σ α} {after : EventLoop}
    {answer : Except String α} (leaves : LeavesOff what P (waited, after))
    (answered : waited.answer? = some answer) : ∃ last before polled, P last before ∧
      what.poll last before = (polled, after) ∧ polled.answer? = some answer := by
  cases waited with
  | ready | panicked =>
    obtain ⟨last, before, kept, asked⟩ := leaves
    exact ⟨last, before, _, kept, asked, answered⟩
  | expired => cases answered

/-- No late fragment is on its way. -/
structure Alone (w : EventLoop) : Prop where
  tasks : w.registry.tasks = []
  queue : w.registry.queue = []

/-- Whether a fragment is on its way is told by the registry. -/
theorem Alone.congr {w w' : EventLoop} (alone : w.Alone) (registry : w'.registry = w.registry) : w'.Alone :=
  ⟨registry ▸ alone.tasks, registry ▸ alone.queue⟩

theorem Alone.idle {w : EventLoop} (alone : w.Alone) : w.registry.queue.isEmpty = true := by
  rw [alone.queue]
  rfl

theorem Alone.alarms {w : EventLoop} (alone : w.Alone) : w.registry.alarms = [] := by
  rw [Registry.alarms, alone.tasks]
  rfl

/-- With no fragment on its way, nothing happens but that time passes. -/
theorem Alone.jump {w : EventLoop} (alone : w.Alone) (alarms : List Alarm) (limit : Nat) :
    w.jump alarms limit =
      { w with timeline := { w.timeline with now := w.nextInstant alarms limit } } := by
  have nobody (now : Nat) : w.registry.due now = w.registry.queue := by
    simp [Registry.due, alone.tasks, alone.queue]
  rw [EventLoop.jump, nobody]

/-- While there is no answer, no fragment is on its way and time is left, time passes until the next
    question. -/
theorem waitRounds_onward {s s' : σ} {w w' : EventLoop} (asked : what.poll s w = (.pending s', w'))
    (alone : w'.Alone) {limit : Nat} (early : w'.now < limit) (turns rounds : Nat) :
    waitRounds what turns limit (rounds + 1) s w =
      waitRounds what turns limit rounds s' (w'.jump (what.alarms s') limit) := by
  rw [waitRounds, asked]
  simp only [alone.idle, if_true]
  rw [if_neg (Nat.not_le_of_lt early)]

section Reaches

variable (what) (turns : Nat) {P : σ → EventLoop → Prop} {due limit : Nat} (inTime : due ≤ limit)
  (onTime : ∀ {s w}, P s w → w.now ≤ due)
  (asked : ∀ {s w}, P s w → w.now < due → ∃ s' w', what.poll s w = (.pending s', w') ∧ w'.Alone ∧
    w'.now = w.now ∧ ∀ later, (∀ alarm ∈ what.alarms s', w.now < alarm.deadline →
      later ≤ alarm.deadline) → P s' { w' with timeline := { w'.timeline with now := later } })

include inTime onTime asked

/-- With no fragment on its way, waiting comes to the instant at which an answer is due, if before this
    instant there is always a sleep that ends not after it. -/
theorem waitRounds_reaches {rounds : Nat} {s : σ} {w : EventLoop} (enough : due < rounds + w.now)
    (start : P s w) : ∃ last before left, P last before ∧ before.now = due ∧
      waitRounds what turns limit rounds s w = waitRounds what turns limit (left + 1) last before := by
  induction rounds generalizing s w with
  | zero => exact absurd (onTime start) (by omega)
  | succ rounds ih =>
    by_cases isDue : w.now = due
    · exact ⟨s, w, rounds, start, isDue, rfl⟩
    · have early : w.now < due := Nat.lt_of_le_of_ne (onTime start) isDue
      obtain ⟨s', w', polled, alone, same, onward⟩ := asked start early
      have ahead : w'.now < limit := by omega
      have passes := w'.now_lt_nextInstant (what.alarms s') ahead
      rw [waitRounds_onward polled alone ahead, alone.jump]
      refine ih ?_ (onward _ fun alarm isRunning ahead => ?_)
      · show due < rounds + w'.nextInstant _ _
        omega
      · exact w'.nextInstant_le limit (List.mem_append_left _ isRunning) (by omega)

/-- So the answer is that to a question at this instant. -/
theorem wait_reaches {s : σ} {w : EventLoop} (start : P s w) : ∃ last before left, P last before ∧
    before.now = due ∧ w.wait what turns limit s = waitRounds what turns limit (left + 1) last before :=
  waitRounds_reaches what turns inTime onTime asked
    (by have := onTime start; omega) start

end Reaches

end EventLoop

/-! ### Nothing is overslept -/

/-- A value of which nothing has been overslept, and when it settles. -/
structure Pace.OnTime (due? : Option Nat) (now : Nat) (p : Pace) : Prop where
  timely : Sleep.Timely now p.sleeps
  due : p.due? now = due?

/-- A value that is on its way is on time. -/
theorem Pace.Awaits.onTime {p : Pace} {now other : Nat} (awaits : p.Awaits now) {due? : Option Nat}
    (due : p.due? other = due?) : p.OnTime due? now where
  timely := awaits.timely
  due := by rw [← due, awaits.due_eq other]

/-- Until a sleep of it has ended that was running, it stays on time. -/
theorem Pace.Awaits.onward {p : Pace} {now other : Nat} (awaits : p.Awaits (now + 1))
    {due? : Option Nat} (due : p.due? other = due?) {later : Nat}
    (stops : ∀ alarm ∈ p.alarm?, now < alarm.deadline → later ≤ alarm.deadline) :
    p.OnTime due? later :=
  (awaits.pass stops).onTime due

/-- A race in which nothing has been overslept, when its value settles, and when its timer rings. -/
structure Race.OnTime (due? : Option Nat) (rings now : Nat) (r : Race) : Prop where
  value : r.pace.OnTime due? now
  timely : Sleep.Timely now [r.timer]
  timer : r.timer.endsAt now = rings

/-- The timer does not ring before the present instant. -/
theorem Race.OnTime.le_rings {due? : Option Nat} {rings now : Nat} {r : Race}
    (onTime : r.OnTime due? rings now) : now ≤ rings := by
  rw [← onTime.timer]
  exact onTime.timely.le_overAll

/-- A value that settles some day is not one that never does. -/
theorem Pace.OnTime.ever {due? : Option Nat} {now : Nat} {p : Pace} (onTime : p.OnTime due? now)
    (some : due? ≠ none) : p.never = false := by
  rw [← onTime.due, Pace.due?] at some
  cases never : p.never with
  | false => rfl
  | true => simp [never] at some

/-- A value does not settle before the present instant. -/
theorem Pace.OnTime.le_due {time now : Nat} {p : Pace} (onTime : p.OnTime (some time) now) :
    now ≤ time := by
  have due := onTime.due
  rw [Pace.due?, onTime.ever (Option.some_ne_none _), if_neg Bool.false_ne_true] at due
  exact Option.some.inj due ▸ onTime.timely.le_overAll

/-- A value that is asked on time settles if it is due, as was told, and otherwise what was told stays
    the same. -/
theorem Pace.OnTime.poll {due? : Option Nat} {p : Pace} {t : Timeline}
    (onTime : p.OnTime due? t.now) :
    (p.poll t = (none, p.forecast t) ∧ due? = some t.now) ∨
      ∃ left timeline, p.poll t = (some left, timeline) ∧ left.Awaits (t.now + 1) ∧
        left.due? t.now = due? ∧ (due? ≠ none → left.forecast timeline = p.forecast t) := by
  have told (some : due? ≠ none) := Pace.poll_forecast onTime.timely (onTime.ever some)
  obtain ⟨timeline, settled, due⟩ | ⟨left, timeline, polled, awaits, due⟩ :=
    Pace.poll_cases onTime.timely <;> rw [onTime.due] at due
  · have same := (told (due ▸ Option.some_ne_none _)).1 settled
    exact .inl ⟨same ▸ settled, due⟩
  · exact .inr ⟨left, timeline, polled, awaits, due, fun some => (told some).2 polled⟩

/-- A race that is asked on time is won by what is due first, and otherwise stays on time until the next
    of its sleeps has ended.  What was told of the value stays the same. -/
theorem Race.OnTime.poll {due? : Option Nat} {rings : Nat} {r : Race} {t : Timeline}
    (onTime : r.OnTime due? rings t.now) :
    (∃ timeline, r.poll t = (.settled, timeline) ∧ due? = some t.now) ∨
      (∃ pace timeline, r.poll t = (.timedOut pace, timeline) ∧ rings = t.now ∧
        pace.Awaits (t.now + 1) ∧ pace.due? t.now = due? ∧
        (due? ≠ none → pace.forecast timeline = r.forecast t)) ∨
      ∃ left timeline, r.poll t = (.running left, timeline) ∧ t.now < rings ∧
        left.pace.Awaits (t.now + 1) ∧
        (∀ later, (∀ alarm ∈ left.alarms, t.now < alarm.deadline → later ≤ alarm.deadline) →
          left.OnTime due? rings later) ∧
        (due? ≠ none → left.forecast timeline = r.forecast t) := by
  have told (some : due? ≠ none) := Race.poll_forecast onTime.value.timely (onTime.value.ever some)
  obtain ⟨timeline, polled, due⟩ | ⟨pace, timeline, polled, awaits, due, isOver⟩ |
    ⟨pace, left, timeline, polled, awaits, due, running, timer⟩ :=
    Race.poll_cases onTime.value.timely onTime.timely <;> rw [onTime.value.due] at due
  · exact .inl ⟨timeline, polled, due⟩
  · rw [onTime.timer] at isOver
    exact .inr (.inl ⟨pace, timeline, polled, isOver, awaits, due, fun some => (told some).1 polled⟩)
  · rw [onTime.timer] at timer
    -- The timer is running, so that it rings when it would have rung.
    have stays (later : Nat) : left.endsAt later = rings := by
      rw [← timer]
      exact (running.overAll_eq later).1.trans (running.overAll_eq t.now).1.symm
    refine .inr (.inr ⟨⟨pace, left⟩, timeline, polled, ?_, awaits, fun later stops => ?_,
      fun some => (told some).2 polled⟩)
    · rw [← stays (t.now + 1)]
      exact (running.overAll_eq (t.now + 1)).2
    · have passes : Sleep.Running later [left] := running.pass fun alarm isRunning =>
        stops alarm (List.mem_append_right _ (Option.mem_toList.2 isRunning))
      refine ⟨awaits.onward due fun alarm isRunning => ?_, .running passes, stays later⟩
      exact stops alarm (List.mem_append_left _ (Option.mem_toList.2 isRunning))

/-! ### Waiting for a value, and for a race -/

namespace Eventual

variable {α : Type} (value : Eventual α) {due? : Option Nat} {rings : Nat}

/-- Asking a value on time answers with what it comes to if it is due. -/
theorem poll_awaitable {p : Pace} {w : EventLoop} (onTime : p.OnTime due? w.now) :
    (∃ polled, value.awaitable.poll p w = (polled, { w with timeline := p.forecast w.timeline }) ∧
      (p.forecast w.timeline).now = w.now ∧ polled.answer? = some value.ending ∧
      due? = some w.now) ∨
      ∃ left timeline, value.awaitable.poll p w = (.pending left, { w with timeline }) ∧
        timeline.now = w.now ∧ left.Awaits (w.now + 1) ∧ left.due? w.now = due? ∧
        (due? ≠ none → left.forecast timeline = p.forecast w.timeline) := by
  have same := p.poll_now w.timeline
  obtain ⟨polled, due⟩ | ⟨left, timeline, polled, onward⟩ := Pace.OnTime.poll onTime <;>
    rw [polled] at same
  · refine .inl ?_
    simp only [awaitable, polled, ending]
    cases value.panic? with
    | none => exact ⟨_, rfl, same, rfl, due⟩
    | some message => exact ⟨_, rfl, same, rfl, due⟩
  · exact .inr ⟨left, timeline, by simp only [awaitable, polled], same, onward⟩

/-- Asking a race on time answers with what the value comes to if it is due, and with the value on its way
    if only the timer rings. -/
theorem poll_raceAwaitable {r : Race} {w : EventLoop} (onTime : r.OnTime due? rings w.now) :
    (∃ polled timeline, value.raceAwaitable.poll r w = (polled, { w with timeline }) ∧
      timeline.now = w.now ∧ polled.answer? = some (value.ending.map .settled) ∧
      due? = some w.now) ∨
      (∃ pace timeline, value.raceAwaitable.poll r w = (.ready (.timedOut pace) r, { w with timeline }) ∧
        timeline.now = w.now ∧ rings = w.now ∧ pace.Awaits (w.now + 1) ∧ pace.due? w.now = due? ∧
        (due? ≠ none → pace.forecast timeline = r.forecast w.timeline)) ∨
      ∃ left timeline, value.raceAwaitable.poll r w = (.pending left, { w with timeline }) ∧
        timeline.now = w.now ∧ w.now < rings ∧ left.pace.Awaits (w.now + 1) ∧
        (∀ later, (∀ alarm ∈ left.alarms, w.now < alarm.deadline → later ≤ alarm.deadline) →
          left.OnTime due? rings later) ∧
        (due? ≠ none → left.forecast timeline = r.forecast w.timeline) := by
  have same := r.poll_now w.timeline
  obtain ⟨timeline, polled, due⟩ | ⟨pace, timeline, polled, late⟩ | ⟨left, timeline, polled, onward⟩ :=
    Race.OnTime.poll onTime <;> rw [polled] at same
  · refine .inl ?_
    simp only [raceAwaitable, polled, ending]
    cases value.panic? with
    | none => exact ⟨_, timeline, rfl, same, rfl, due⟩
    | some message => exact ⟨_, timeline, rfl, same, rfl, due⟩
  · exact .inr (.inl ⟨pace, timeline, by simp only [raceAwaitable, polled], same, late⟩)
  · exact .inr (.inr ⟨left, timeline, by simp only [raceAwaitable, polled], same, onward⟩)

variable {value} {turns limit : Nat} {w : EventLoop}

/-! #### Whatever else is on its way -/

section Companions

variable {after : EventLoop}

/-- A value answers with what it comes to, when it is due. -/
theorem wait_answer {p : Pace} {waited : Waited Pace α} {answer : Except String α}
    (onTime : p.OnTime due? w.now)
    (asked : w.wait value.awaitable turns limit p = (waited, after))
    (answered : waited.answer? = some answer) :
    answer = value.ending ∧ due? = some after.now := by
  have leaves : EventLoop.LeavesOff value.awaitable (fun p w => p.OnTime due? w.now)
      (w.wait value.awaitable turns limit p) := by
    -- Whenever it is asked it is on time, and when it was asked in vain nothing of it is over yet.
    refine EventLoop.waitRounds_alternates
      (Q := fun p w => p.Awaits (w.now + 1) ∧ p.due? w.now = due?) turns limit _ onTime
      ?_ ?_ ?_ ?_
    · intro p w left after onTime polled
      obtain ⟨answer, asked, -, answered, -⟩ | ⟨left, timeline, asked, same, awaits, due, -⟩ :=
        value.poll_awaitable onTime <;> rw [asked] at polled <;> cases polled
      · cases answered
      · rw [show EventLoop.now { w with timeline } = w.now from same]
        exact ⟨awaits, due⟩
    · rintro p w waits
      rw [EventLoop.runNext_now]
      exact waits
    · rintro p w ⟨awaits, due⟩
      exact awaits.onward due fun alarm _ ahead => Nat.le_of_lt ahead
    · rintro p w ⟨awaits, due⟩ - -
      refine awaits.onward due fun alarm isRunning ahead => ?_
      exact w.nextInstant_le limit (List.mem_append_left _ (Option.mem_toList.2 isRunning)) ahead
  rw [asked] at leaves
  obtain ⟨last, before, polled, onTime, asked, answered⟩ := leaves.answer answered
  obtain ⟨polled', asked', same, answered', due⟩ | ⟨left, timeline, asked', -⟩ :=
    value.poll_awaitable onTime <;> rw [asked'] at asked <;> cases asked
  · exact ⟨Option.some.inj (answered.symm.trans answered'), due.trans (congrArg some same.symm)⟩
  · cases answered

/-- The race of a value against a timer answers with what the value comes to, when it is due, if this is
    not after the timer rings.  Otherwise it answers when the timer rings, with the value still on its
    way. -/
theorem race_answer {r : Race} {waited : Waited Race (RaceOutcome α)}
    {answer : Except String (RaceOutcome α)} (onTime : r.OnTime due? rings w.now)
    (asked : w.wait value.raceAwaitable turns limit r = (waited, after))
    (answered : waited.answer? = some answer) :
    (answer = value.ending.map .settled ∧ due? = some after.now ∧ after.now ≤ rings) ∨
      ∃ pace, answer = .ok (.timedOut pace) ∧ rings = after.now ∧ pace.Awaits (after.now + 1) ∧
        pace.due? after.now = due? := by
  have leaves : EventLoop.LeavesOff value.raceAwaitable (fun r w => r.OnTime due? rings w.now)
      (w.wait value.raceAwaitable turns limit r) := by
    -- What was asked in vain stays on time until the first of its sleeps is over.
    refine EventLoop.waitRounds_alternates
      (Q := fun r w => ∀ later, (∀ alarm ∈ r.alarms, w.now < alarm.deadline →
        later ≤ alarm.deadline) → r.OnTime due? rings later) turns limit _ onTime ?_ ?_ ?_ ?_
    · intro r w left after onTime polled
      obtain ⟨answer, timeline, asked, -, answered, -⟩ | ⟨pace, timeline, asked, -⟩ |
        ⟨left, timeline, asked, same, -, -, onward, -⟩ :=
        value.poll_raceAwaitable onTime <;> rw [asked] at polled <;> cases polled
      · cases answered
      · rw [show EventLoop.now { w with timeline } = w.now from same]
        exact onward
    · rintro r w waits
      rw [EventLoop.runNext_now]
      exact waits
    · rintro r w onward
      exact onward _ fun alarm _ ahead => Nat.le_of_lt ahead
    · rintro r w onward - -
      refine onward _ fun alarm isRunning ahead => ?_
      exact w.nextInstant_le limit (List.mem_append_left _ isRunning) ahead
  rw [asked] at leaves
  obtain ⟨last, before, polled, onTime, asked, answered⟩ := leaves.answer answered
  obtain ⟨polled', timeline, asked', same, answered', due⟩ |
    ⟨pace, timeline, asked', same, rung, awaits, due, -⟩ | ⟨left, timeline, asked', -⟩ :=
    value.poll_raceAwaitable onTime <;> rw [asked'] at asked <;> cases asked
  · rw [show EventLoop.now { before with timeline } = before.now from same]
    exact .inl ⟨Option.some.inj (answered.symm.trans answered'), due, onTime.le_rings⟩
  · rw [show EventLoop.now { before with timeline } = before.now from same]
    exact .inr ⟨pace, (Option.some.inj answered).symm, rung, awaits, due⟩
  · cases answered

end Companions

/-! #### Nothing else on its way -/

section Alone

variable (value turns) (alone : w.Alone)

include alone

/-- A value that is due by the limit settles as was told. -/
theorem wait_settles {p : Pace} {time : Nat} (onTime : p.OnTime (some time) w.now)
    (inTime : time ≤ limit) : ∃ waited,
      w.wait value.awaitable turns limit p =
        (waited, { w with timeline := p.forecast w.timeline }) ∧
      waited.answer? = some value.ending := by
  -- Until the value is due the wait goes on, and what is told of it stays the same.
  obtain ⟨last, before, left, ⟨-, onTime, told⟩, isDue, same⟩ :=
    EventLoop.wait_reaches value.awaitable turns
      (P := fun q v => v.Alone ∧ q.OnTime (some time) v.now ∧
        { v with timeline := q.forecast v.timeline } = { w with timeline := p.forecast w.timeline })
      inTime
      (fun kept => kept.2.1.le_due)
      (by
        rintro q v ⟨alone, onTime, told⟩ early
        obtain ⟨-, -, -, -, due⟩ | ⟨left, timeline, asked, now, awaits, due, kept⟩ :=
          value.poll_awaitable onTime
        · exact absurd (Option.some.inj due) (by omega)
        · have some := Option.some_ne_none time
          refine ⟨left, _, asked, ⟨alone.tasks, alone.queue⟩, now, fun later stops => ?_⟩
          have onward := awaits.onward due fun alarm isRunning =>
            stops alarm (Option.mem_toList.2 isRunning)
          refine ⟨⟨alone.tasks, alone.queue⟩, onward, ?_⟩
          rw [← told, ← kept some]
          exact congrArg (fun timeline => { v with timeline })
            (awaits.forecast_eq (onward.ever some) later))
      ⟨alone, onTime, rfl⟩
  rw [same]
  obtain ⟨polled, asked, -, answered, -⟩ | ⟨_, _, _, _, awaits, due, -⟩ :=
    value.poll_awaitable onTime
  · rw [told] at asked
    exact EventLoop.waitRounds_of_answer turns limit left asked answered
  · exact absurd (awaits.onTime due).le_due (by omega)

/-- A race whose value is due by the limit, and not after the timer rings, is won by the value. -/
theorem race_settles {r : Race} {time : Nat} (onTime : r.OnTime (some time) rings w.now)
    (inTime : time ≤ limit) (first : time ≤ rings) : ∃ waited after,
      w.wait value.raceAwaitable turns limit r = (waited, after) ∧
      waited.answer? = some (value.ending.map .settled) ∧ after.now = time := by
  -- Until the value is due, neither side is first.
  obtain ⟨last, before, left, ⟨-, onTime⟩, isDue, same⟩ :=
    EventLoop.wait_reaches value.raceAwaitable turns
      (P := fun q v => v.Alone ∧ q.OnTime (some time) rings v.now)
      inTime
      (fun kept => kept.2.value.le_due)
      (by
        rintro q v ⟨alone, onTime⟩ early
        obtain ⟨-, -, -, -, -, due⟩ | ⟨-, -, -, -, rung, -⟩ |
          ⟨left, timeline, asked, now, -, -, onward, -⟩ := value.poll_raceAwaitable onTime
        · exact absurd (Option.some.inj due) (by omega)
        · omega
        · exact ⟨left, _, asked, ⟨alone.tasks, alone.queue⟩, now, fun later stops =>
            ⟨⟨alone.tasks, alone.queue⟩, onward later stops⟩⟩)
      ⟨alone, onTime⟩
  rw [same]
  obtain ⟨polled, timeline, asked, now, answered, -⟩ | ⟨_, _, _, _, _, awaits, due, -⟩ |
    ⟨next, _, _, _, _, awaits, onward, -⟩ := value.poll_raceAwaitable onTime
  · obtain ⟨waited, same, answered⟩ :=
      EventLoop.waitRounds_of_answer turns limit left asked answered
    exact ⟨waited, _, same, answered, now.trans isDue⟩
  · exact absurd (awaits.onTime due).le_due (by omega)
  · have stays := onward before.now fun _ _ ahead => Nat.le_of_lt ahead
    exact absurd (awaits.onTime stays.value.due).le_due (by omega)

/-- A race whose timer rings by the limit, and before the value is due, is won by the timer. -/
theorem race_timesOut {r : Race} (onTime : r.OnTime due? rings w.now)
    (inTime : rings ≤ limit) (first : ∀ time ∈ due?, rings < time) : ∃ pace last timeline,
      w.wait value.raceAwaitable turns limit r =
        (.ready (.timedOut pace) last, { w with timeline }) ∧
      timeline.now = rings ∧ pace.Awaits (rings + 1) ∧ pace.due? rings = due? ∧
      (due? ≠ none → pace.forecast timeline = r.forecast w.timeline) := by
  -- Until the timer rings the value is not there, and what is told of it stays the same.
  obtain ⟨last, before, left, ⟨-, onTime, aside, told⟩, isDue, same⟩ :=
    EventLoop.wait_reaches value.raceAwaitable turns
      (P := fun q v => v.Alone ∧ q.OnTime due? rings v.now ∧
        (∀ timeline, { v with timeline } = { w with timeline }) ∧
        (due? ≠ none → q.forecast v.timeline = r.forecast w.timeline))
      inTime
      (fun kept => kept.2.1.le_rings)
      (by
        rintro q v ⟨alone, onTime, aside, told⟩ early
        obtain ⟨-, -, -, -, -, due⟩ | ⟨-, -, -, -, rung, -⟩ |
          ⟨left, timeline, asked, now, -, awaits, onward, kept⟩ := value.poll_raceAwaitable onTime
        · exact absurd (first _ due) (by omega)
        · omega
        · refine ⟨left, _, asked, ⟨alone.tasks, alone.queue⟩, now, fun later stops =>
            ⟨⟨alone.tasks, alone.queue⟩, onward later stops, aside, fun some => ?_⟩⟩
          rw [← told some, ← kept some]
          exact Pace.Awaits.forecast_eq
            (t := { timeline with sleeps := timeline.sleeps + Sleep.unstarted [left.timer] }) awaits
            ((onward later stops).value.ever some) later)
      ⟨alone, onTime, fun _ => rfl, fun _ => rfl⟩
  rw [same]
  obtain ⟨_, _, _, _, _, due⟩ | ⟨pace, timeline, asked, now, rung, awaits, due, kept⟩ |
    ⟨_, _, _, _, early, -⟩ := value.poll_raceAwaitable onTime
  · exact absurd (first _ due) (by omega)
  · rw [EventLoop.waitRounds, asked, aside]
    exact ⟨pace, last, timeline, rfl, now.trans isDue, isDue ▸ awaits, isDue ▸ due,
      fun some => (kept some).trans (told some)⟩
  · omega

end Alone

/-- What comes of a race, with whatever fragments on their way: every answer is that of the value, at the
    instant at which its delays are over, if this is not after the time of the timer, and otherwise the
    value on its way, when the timer rings; and every answer of that value is the same at the same
    instant.  With no fragments on their way there are these answers, and waiting for the value on its way
    leaves behind what waiting for it from the start would have left, except for the sleep of the timer:
    none of its sleeps has been started anew. -/
theorem race_decides (name : String) (delays : List Nat) (never : Bool) (panic? : Option String)
    (result : α) (timeout turns : Nat) (w : EventLoop) :
    let value : Eventual α := ⟨.ofDelays name delays never, panic?, result⟩
    let raced (limit : Nat) := w.wait value.raceAwaitable turns limit (.start value.pace timeout)
    let settles := w.now + delays.sum
    let inTime := never = false ∧ delays.sum ≤ timeout
    (∀ {limit waited after answer}, raced limit = (waited, after) → waited.answer? = some answer →
      (inTime ∧ answer = value.ending.map .settled ∧ after.now = settles) ∨
      ¬ inTime ∧ ∃ pace, answer = .ok (.timedOut pace) ∧ after.now = w.now + timeout ∧
        ∀ {turns limit waited later answer},
          after.wait value.awaitable turns limit pace = (waited, later) →
          waited.answer? = some answer →
          never = false ∧ answer = value.ending ∧ later.now = settles) ∧
    (w.Alone →
      (inTime → ∀ limit, settles ≤ limit → ∃ waited after, raced limit = (waited, after) ∧
        waited.answer? = some (value.ending.map .settled) ∧ after.now = settles) ∧
      (¬ inTime → ∀ limit, w.now + timeout ≤ limit → ∃ pace last after,
        raced limit = (.ready (.timedOut pace) last, after) ∧ after.now = w.now + timeout ∧
        (never = false → ∀ limit, settles ≤ limit → ∃ unraced waited timeline,
          w.wait value.awaitable turns limit value.pace = (unraced, { w with timeline }) ∧
          unraced.answer? = some value.ending ∧ timeline.now = settles ∧
          after.wait value.awaitable turns limit pace = (waited, { w with timeline := { timeline with
            sleeps := timeline.sleeps + if timeout = 0 then 0 else 1 } }) ∧
          waited.answer? = some value.ending))) := by
  intro value raced settles inTime
  -- The value settles once its delays have passed, or never.
  obtain ⟨due?, isDue⟩ : ∃ due?, due? = if never then none else some settles := ⟨_, rfl⟩
  have isDue_iff (time : Nat) : due? = some time ↔ never = false ∧ settles = time := by
    cases never <;> simp [isDue]
  have fresh : value.pace.OnTime due? w.now := by
    refine ⟨.idle delays, ?_⟩
    simp only [value, Pace.due?, Pace.ofDelays, Sleep.overAll_idle, settles, isDue]
  have start : (Race.start value.pace timeout).OnTime due? (w.now + timeout) w.now :=
    ⟨fresh, .idle [timeout], rfl⟩
  refine ⟨fun {limit waited after answer} asked answered => ?_, fun alone => ⟨?_, ?_⟩⟩
  · obtain ⟨rfl, due, first⟩ | ⟨pace, rfl, rung, awaits, due⟩ := race_answer start asked answered
    · obtain ⟨ever, same⟩ := (isDue_iff _).1 due
      exact .inl ⟨⟨ever, by omega⟩, rfl, same.symm⟩
    · refine .inr ⟨?_, pace, rfl, rung.symm, ?_⟩
      · rintro ⟨ever, first⟩
        have later := awaits.le_due ((awaits.due_eq after.now).symm.trans
          (due.trans ((isDue_iff settles).2 ⟨ever, rfl⟩)))
        omega
      · intro turns limit waited later answer asked answered
        have stays := awaits.onward due fun _ _ ahead => Nat.le_of_lt ahead
        obtain ⟨rfl, due⟩ := wait_answer stays asked answered
        obtain ⟨ever, same⟩ := (isDue_iff _).1 due
        exact ⟨ever, rfl, same.symm⟩
  · rintro ⟨ever, first⟩ limit early
    rw [(isDue_iff settles).2 ⟨ever, rfl⟩] at start
    exact race_settles value turns alone start early (by omega)
  · intro late limit early
    obtain ⟨pace, last, timeline, asked, rung, awaits, due, told⟩ := race_timesOut value turns
      alone start early fun time isTime => by
        obtain ⟨ever, rfl⟩ := (isDue_iff time).1 isTime
        exact Nat.add_lt_add_left (Nat.lt_of_not_le fun first => late ⟨ever, first⟩) _
    refine ⟨pace, last, _, asked, rung, fun ever limit enough => ?_⟩
    have isDue := (isDue_iff settles).2 ⟨ever, rfl⟩
    rw [isDue] at fresh due told
    obtain ⟨unraced, settled, answered⟩ :=
      wait_settles value turns alone fresh enough
    have stays : pace.OnTime (some settles) timeline.now := by
      rw [rung]
      exact awaits.onward due fun _ _ ahead => Nat.le_of_lt ahead
    obtain ⟨waited, settled', answered'⟩ := wait_settles value turns
      (w := { w with timeline }) ⟨alone.tasks, alone.queue⟩ stays enough
    refine ⟨unraced, waited, _, settled, answered, ?_, ?_, answered'⟩
    · exact Sleep.overAll_idle w.now delays
    · have timer : Sleep.unstarted [(Race.start value.pace timeout).timer] =
          if timeout = 0 then 0 else 1 := by
        cases timeout with
        | zero => rfl
        | succ => rfl
      rw [settled', told (Option.some_ne_none _), Race.forecast, Pace.forecast_sleeps, timer]
      rfl

/-- A value of two sleeps wins against a timer that rings when the second one ends; a timer that rings in
    between wins, and the value then settles when it would have settled anyhow. -/
theorem race_of_two_sleeps :
    let value : Eventual Nat := ⟨.ofDelays "value" [3, 4] false, none, 1⟩
    let fresh : EventLoop := {}
    (∃ waited after, fresh.wait value.raceAwaitable 0 10 (.start value.pace 7) = (waited, after) ∧
      waited.answer? = some (.ok (.settled 1)) ∧ after.now = 7) ∧
    ∃ pace last after waited later,
      fresh.wait value.raceAwaitable 0 10 (.start value.pace 5) =
        (.ready (.timedOut pace) last, after) ∧ after.now = 5 ∧
      after.wait value.awaitable 0 10 pace = (waited, later) ∧ waited.answer? = some (.ok 1) ∧
      later.now = 7 := by
  have alone : EventLoop.Alone {} := ⟨rfl, rfl⟩
  have decided (timeout : Nat) := race_decides "value" [3, 4] false none (1 : Nat) timeout 0 {}
  obtain ⟨pace, last, after, asked, rung, onward⟩ :=
    ((decided 5).2 alone).2 (by simp) 10 (by decide)
  obtain ⟨_, waited, timeline, -, -, now, asked', answered⟩ := onward rfl 10 (by decide)
  exact ⟨((decided 7).2 alone).1 ⟨rfl, by decide⟩ 10 (by decide),
    pace, last, after, waited, _, asked, rung, asked', answered, now⟩

end Eventual

end ProgressiveHtml
