import Mathlib.Algebra.Order.BigOperators.Group.List
import Mathlib.Algebra.Order.Group.Nat
import Mathlib.Algebra.Ring.Nat
import ProgressiveHtml.Proofs.Rendering.Asked
import ProgressiveHtml.Proofs.Rendering.Brief

namespace ProgressiveHtml

/-!
# Renderings — what is still to come

When all values in a rendering settle, what is still to come of it is bounded: the time that its sleeps
take, and the fragments that it hands in.  Asking it does not make this more, and time that passes
until one of its sleeps ends makes it less by as much.

* `Sleep.ahead`, `Pace.ahead`, `Race.ahead` — how long sleeps still take, one after the other;
* `Rendering.Effort` — a bound on what is still to come of a rendering;
* `Rendering.Effort.pass` — time passes;
* `Rendering.Effort.exists_alarm` — what is left of a rendering waits for a sleep;
* `Rendering.Effort.steps` — asking a rendering.
-/

/-! ### Sleeps -/

/-- How long a sleep still takes at an instant. -/
def Sleep.ahead (now : Nat) : Sleep → Nat
  | idle length => length
  | running alarm => alarm.deadline - now

/-- How long the sleeps of a pace still take, one after the other. -/
def Pace.ahead (now : Nat) (p : Pace) : Nat :=
  (p.sleeps.map (Sleep.ahead now)).sum

/-- How long the sleeps of a race still take together. -/
def Race.ahead (now : Nat) (r : Race) : Nat :=
  r.pace.ahead now + r.timer.ahead now

section

variable {now later : Nat}

theorem Sleep.ahead_le (s : Sleep) (passed : now ≤ later) : s.ahead later ≤ s.ahead now := by
  cases s with
  | idle length => exact Nat.le_refl length
  | running alarm => exact Nat.sub_le_sub_left passed alarm.deadline

theorem Pace.ahead_le (p : Pace) (passed : now ≤ later) : p.ahead later ≤ p.ahead now :=
  List.sum_le_sum fun s _ => s.ahead_le passed

theorem Race.ahead_le (r : Race) (passed : now ≤ later) : r.ahead later ≤ r.ahead now :=
  Nat.add_le_add (r.pace.ahead_le passed) (r.timer.ahead_le passed)

/-- A sleep that is running takes less by the time that has passed. -/
theorem Sleep.ahead_pass {s : Sleep} {alarm : Alarm} (isRunning : s.alarm? = some alarm)
    (passed : now ≤ later) (early : later ≤ alarm.deadline) :
    s.ahead later + (later - now) ≤ s.ahead now := by
  cases s with
  | idle => cases isRunning
  | running =>
    obtain rfl := Option.some.inj isRunning
    simp only [ahead]
    omega

theorem Pace.ahead_pass {p : Pace} {alarm : Alarm} (isRunning : p.alarm? = some alarm)
    (passed : now ≤ later) (early : later ≤ alarm.deadline) :
    p.ahead later + (later - now) ≤ p.ahead now := by
  obtain ⟨s, first, isRunning⟩ := Option.bind_eq_some_iff.1 isRunning
  obtain ⟨rest, sleeps⟩ := List.head?_eq_some_iff.1 first
  -- Only the first sleep is running; the ones behind it have not begun, and do not get longer.
  have here := Sleep.ahead_pass isRunning passed early
  have others : (rest.map (Sleep.ahead later)).sum ≤ (rest.map (Sleep.ahead now)).sum :=
    List.sum_le_sum fun s _ => s.ahead_le passed
  simp only [ahead, sleeps, List.map_cons, List.sum_cons]
  omega

theorem Race.ahead_pass {r : Race} {alarm : Alarm} (isRunning : alarm ∈ r.alarms)
    (passed : now ≤ later) (early : later ≤ alarm.deadline) :
    r.ahead later + (later - now) ≤ r.ahead now := by
  have value := r.pace.ahead_le passed
  have timer := r.timer.ahead_le passed
  unfold ahead
  simp only [alarms, List.mem_append, Option.mem_toList] at isRunning
  obtain isRunning | isRunning := isRunning
  · have := Pace.ahead_pass isRunning passed early
    omega
  · have := Sleep.ahead_pass isRunning passed early
    omega

end

section

variable {t timeline : Timeline}

/-- Asking a sleep does not make it longer. -/
theorem Sleep.ahead_poll {s left : Sleep} (asked : s.poll t = (some left, timeline)) :
    left.ahead t.now ≤ s.ahead t.now := by
  unfold poll at asked
  split at asked
  · simp at asked
  · simp only [Prod.mk.injEq, Option.some.injEq] at asked
    rw [← asked.1]
    show t.now + _ - t.now ≤ _
    rw [Nat.add_sub_cancel_left]
    exact Nat.le_refl _
  · split at asked
    · simp at asked
    · simp only [Prod.mk.injEq, Option.some.injEq] at asked
      exact asked.1 ▸ Nat.le_refl _

theorem Sleep.ahead_pollAll (sleeps : List Sleep) (t : Timeline) :
    ((pollAll sleeps t).1.map (ahead t.now)).sum ≤ (sleeps.map (ahead t.now)).sum := by
  induction sleeps generalizing t with
  | nil => exact Nat.le_refl _
  | cons s rest ih =>
    rw [pollAll_cons]
    cases asked : (s.poll t).1 with
    | none =>
      rw [List.map_cons, List.sum_cons, ← s.poll_now t]
      exact Nat.le_add_left_of_le (ih _)
    | some left =>
      simp only [List.map_cons, List.sum_cons]
      exact Nat.add_le_add_right (ahead_poll (Prod.ext asked rfl)) _

/-- Asking a value does not make its time longer. -/
theorem Pace.ahead_poll {p left : Pace} (asked : p.poll t = (some left, timeline)) :
    left.ahead t.now ≤ p.ahead t.now ∧ left.never = p.never := by
  have fewer := Sleep.ahead_pollAll p.sleeps (p.begin t)
  rw [begin_now] at fewer
  unfold poll at asked
  split at asked <;> rename_i sleeps <;> rw [sleeps] at fewer
  · split at asked
    · simp only [Prod.mk.injEq, Option.some.injEq] at asked
      rw [← asked.1]
      exact ⟨Nat.zero_le _, rfl⟩
    · simp at asked
  · simp only [Prod.mk.injEq, Option.some.injEq] at asked
    rw [← asked.1]
    exact ⟨fewer, rfl⟩

theorem Race.ahead_poll {r left : Race} (asked : r.poll t = (.running left, timeline)) :
    left.ahead t.now ≤ r.ahead t.now ∧ left.pace.never = r.pace.never := by
  unfold poll at asked
  split at asked <;> rename_i value
  · simp at asked
  · have still := r.pace.poll_now t
    rw [value] at still
    split at asked <;> rename_i timer
    · simp at asked
    · simp only [Prod.mk.injEq, Standing.running.injEq] at asked
      rw [← asked.1]
      obtain ⟨shorter, never⟩ := Pace.ahead_poll value
      have timer := Sleep.ahead_poll timer
      dsimp only at still
      rw [still] at timer
      exact ⟨Nat.add_le_add shorter timer, never⟩

/-- What is left of a value that lost a race. -/
theorem Race.ahead_timedOut {r : Race} {left : Pace} (asked : r.poll t = (.timedOut left, timeline)) :
    left.ahead t.now ≤ r.ahead t.now ∧ left.never = r.pace.never := by
  unfold poll at asked
  split at asked <;> rename_i value
  · simp at asked
  · split at asked
    · simp only [Prod.mk.injEq, Standing.timedOut.injEq] at asked
      rw [← asked.1]
      obtain ⟨shorter, never⟩ := Pace.ahead_poll value
      exact ⟨Nat.le_add_right_of_le shorter, never⟩
    · simp at asked

end

namespace Rendering

/-! ### Renderings -/

mutual

/-- All values in a rendering settle, and from the instant on no more than `n` is still to come of it:
    one for each millisecond that its sleeps take, and three for each fragment that it hands in, with
    what is to come of the content. -/
def Effort : Rendering → (now n : Nat) → Prop
  | done _, _, _ | failed _, _, _ | panicked _, _, _ => True
  | note _ next, now, n => next.Effort now n
  | claim _ next, now, n => next.Effort now n
  | number _ next, now, n => ∀ first, (next first).Effort now n
  | outstanding next, now, n => ∀ pending, (next pending).Effort now n
  | register content next, now, n => ∃ a b, a + b + 3 ≤ n ∧
      (∀ slot, (content slot).Effort now a) ∧ ∀ slot, (next slot).Effort now b
  | wait pace next, now, n => pace.never = false ∧ ∃ a, pace.ahead now + a ≤ n ∧ next.Effort now a
  | race r inTime late, now, n => r.pace.never = false ∧ ∃ a, r.ahead now + a ≤ n ∧
      inTime.Effort now a ∧ ∀ later pace, now ≤ later → pace.never = false →
        (late pace).Effort later (pace.ahead later + a)
  | join parts next, now, n => ∃ a b, a + b ≤ n ∧ EffortAll parts now a ∧
      ∀ texts, (next texts).Effort now b
  | attempt body next, now, n => ∃ a b, a + b ≤ n ∧ body.Effort now a ∧
      ∀ result, (next result).Effort now b
termination_by structural r => r

/-- No more than `n` is still to come of several renderings together. -/
def EffortAll : List Rendering → (now n : Nat) → Prop
  | [], _, _ => True
  | part :: rest, now, n => ∃ a b, a + b ≤ n ∧ part.Effort now a ∧ EffortAll rest now b
termination_by structural parts => parts

end

section

variable {r : Rendering} {parts rest : List Rendering} {now later m n : Nat}

/-- A larger bound is a bound. -/
theorem Effort.mono (effort : r.Effort now m) (more : m ≤ n) : r.Effort now n := by
  induction r using Rendering.rec (motive_2 := fun _ => True) generalizing m n with
  | done | failed | panicked => trivial
  | note event next ih => exact ih effort more
  | claim cell next ih => exact ih effort more
  | number size next ih => exact fun first => ih first (effort first) more
  | outstanding next ih => exact fun pending => ih pending (effort pending) more
  | register content next =>
    obtain ⟨a, b, bound, handedIn, onward⟩ := effort
    exact ⟨a, b, Nat.le_trans bound more, handedIn, onward⟩
  | wait pace next =>
    obtain ⟨settles, a, bound, onward⟩ := effort
    exact ⟨settles, a, Nat.le_trans bound more, onward⟩
  | race r inTime late =>
    obtain ⟨settles, a, bound, inTime, timedOut⟩ := effort
    exact ⟨settles, a, Nat.le_trans bound more, inTime, timedOut⟩
  | join parts next =>
    obtain ⟨a, b, bound, siblings, onward⟩ := effort
    exact ⟨a, b, Nat.le_trans bound more, siblings, onward⟩
  | attempt body next =>
    obtain ⟨a, b, bound, inside, onward⟩ := effort
    exact ⟨a, b, Nat.le_trans bound more, inside, onward⟩
  | nil | cons => trivial

theorem EffortAll.mono (effort : EffortAll parts now m) (more : m ≤ n) : EffortAll parts now n := by
  cases parts with
  | nil => trivial
  | cons part rest =>
    obtain ⟨a, b, bound, first, others⟩ := effort
    exact ⟨a, b, Nat.le_trans bound more, first, others⟩

/-- What is to come of several renderings is to come of some and of the others. -/
theorem effortAll_append : EffortAll (parts ++ rest) now n ↔
    ∃ a b, a + b ≤ n ∧ EffortAll parts now a ∧ EffortAll rest now b := by
  induction parts generalizing n with
  | nil =>
    constructor
    · exact fun effort => ⟨0, n, by omega, trivial, effort⟩
    · rintro ⟨a, b, bound, -, others⟩
      exact others.mono (by omega)
  | cons part parts ih =>
    constructor
    · rintro ⟨a, b, bound, first, others⟩
      obtain ⟨c, d, within, inside, behind⟩ := ih.1 others
      exact ⟨a + c, d, by omega, ⟨a, c, Nat.le_refl _, first, inside⟩, behind⟩
    · rintro ⟨a, b, bound, ⟨c, d, within, first, inside⟩, behind⟩
      exact ⟨c, d + b, by omega, first, ih.2 ⟨d, b, Nat.le_refl _, inside, behind⟩⟩

mutual

/-- A bound stays one while time passes. -/
theorem Effort.later {r : Rendering} {n : Nat} (effort : r.Effort now n) (passed : now ≤ later) :
    r.Effort later n := by
  cases r with
  | done | failed | panicked => trivial
  | note event next => exact Effort.later (r := next) effort passed
  | claim cell next => exact Effort.later (r := next) effort passed
  | number size next => exact fun first => (effort first).later passed
  | outstanding next => exact fun pending => (effort pending).later passed
  | register content next =>
    obtain ⟨a, b, bound, handedIn, onward⟩ := effort
    exact ⟨a, b, bound, fun slot => (handedIn slot).later passed,
      fun slot => (onward slot).later passed⟩
  | wait pace next =>
    obtain ⟨settles, a, bound, onward⟩ := effort
    -- Of a sleep that is running, less is still to come.
    have shorter := pace.ahead_le passed
    exact ⟨settles, a, by omega, onward.later passed⟩
  | race r inTime late =>
    obtain ⟨settles, a, bound, inTime, timedOut⟩ := effort
    have shorter := r.ahead_le passed
    exact ⟨settles, a, by omega, inTime.later passed,
      fun last pace after => timedOut last pace (Nat.le_trans passed after)⟩
  | join parts next =>
    obtain ⟨a, b, bound, siblings, onward⟩ := effort
    exact ⟨a, b, bound, EffortAll.later siblings passed, fun texts => (onward texts).later passed⟩
  | attempt body next =>
    obtain ⟨a, b, bound, inside, onward⟩ := effort
    exact ⟨a, b, bound, inside.later passed, fun result => (onward result).later passed⟩
termination_by structural r

theorem EffortAll.later {parts : List Rendering} {n : Nat} (effort : EffortAll parts now n)
    (passed : now ≤ later) : EffortAll parts later n := by
  cases parts with
  | nil => trivial
  | cons part rest =>
    obtain ⟨a, b, bound, first, others⟩ := effort
    exact ⟨a, b, bound, first.later passed, EffortAll.later others passed⟩
termination_by structural parts

end

mutual

/-- While a sleep is running that a rendering waits for, the time that passes is taken off. -/
theorem Effort.pass {r : Rendering} {n : Nat} (effort : r.Effort now n) {alarm : Alarm}
    (isRunning : alarm ∈ r.alarms) (passed : now ≤ later) (early : later ≤ alarm.deadline) :
    ∃ m, m + (later - now) ≤ n ∧ r.Effort later m := by
  cases r with
  | wait pace next =>
    obtain ⟨settles, a, bound, onward⟩ := effort
    have shorter := Pace.ahead_pass (Option.mem_toList.1 isRunning) passed early
    exact ⟨pace.ahead later + a, by omega, settles, a, Nat.le_refl _, onward.later passed⟩
  | race r inTime late =>
    obtain ⟨settles, a, bound, inTime, timedOut⟩ := effort
    have shorter := Race.ahead_pass isRunning passed early
    exact ⟨r.ahead later + a, by omega, settles, a, Nat.le_refl _, inTime.later passed,
      fun last pace after => timedOut last pace (Nat.le_trans passed after)⟩
  | join parts next =>
    obtain ⟨a, b, bound, siblings, onward⟩ := effort
    obtain ⟨m, shorter, siblings⟩ := EffortAll.pass siblings isRunning passed early
    exact ⟨m + b, by omega, m, b, Nat.le_refl _, siblings, fun texts => (onward texts).later passed⟩
  | attempt body next =>
    obtain ⟨a, b, bound, inside, onward⟩ := effort
    obtain ⟨m, shorter, inside⟩ := inside.pass isRunning passed early
    exact ⟨m + b, by omega, m, b, Nat.le_refl _, inside, fun result => (onward result).later passed⟩
  | _ => simp [alarms] at isRunning
termination_by structural r

theorem EffortAll.pass {parts : List Rendering} {n : Nat} (effort : EffortAll parts now n)
    {alarm : Alarm} (isRunning : alarm ∈ alarmsOfAll parts) (passed : now ≤ later)
    (early : later ≤ alarm.deadline) : ∃ m, m + (later - now) ≤ n ∧ EffortAll parts later m := by
  cases parts with
  | nil => cases isRunning
  | cons part rest =>
    obtain ⟨a, b, bound, first, others⟩ := effort
    obtain here | there := List.mem_append.1 isRunning
    · obtain ⟨m, shorter, first⟩ := first.pass here passed early
      exact ⟨m + b, by omega, m, b, Nat.le_refl _, first, others.later passed⟩
    · obtain ⟨m, shorter, others⟩ := EffortAll.pass others there passed early
      exact ⟨a + m, by omega, a, m, Nat.le_refl _, first.later passed, others⟩
termination_by structural parts

end

/-- Going on after a rendering. -/
theorem Effort.andThen (effort : r.Effort now m) {next : String → Rendering}
    (onward : ∀ markup, (next markup).Effort now n) : (r.andThen next).Effort now (m + n) := by
  induction r using Rendering.rec (motive_2 := fun _ => True) generalizing now m with
  | done markup => exact (onward markup).mono (Nat.le_add_left n m)
  | failed | panicked => trivial
  | note event next ih => exact ih effort onward
  | claim cell next ih => exact ih effort onward
  | number size next ih => exact fun first => ih first (effort first) onward
  | outstanding next ih => exact fun pending => ih pending (effort pending) onward
  | register content next _ ih =>
    obtain ⟨a, b, bound, handedIn, rest⟩ := effort
    exact ⟨a, b + n, by omega, handedIn, fun slot => ih slot (rest slot) onward⟩
  | wait pace next ih =>
    obtain ⟨settles, a, bound, rest⟩ := effort
    exact ⟨settles, a + n, by omega, ih rest onward⟩
  | race r inTime late ihInTime ihLate =>
    obtain ⟨settles, a, bound, inTime, timedOut⟩ := effort
    refine ⟨settles, a + n, by omega, ihInTime inTime onward, fun later pace passed ends => ?_⟩
    -- What comes afterwards is bounded at any later instant, too.
    rw [← Nat.add_assoc]
    exact ihLate pace (timedOut later pace passed ends) fun markup => (onward markup).later passed
  | join parts next _ ih =>
    obtain ⟨a, b, bound, siblings, rest⟩ := effort
    exact ⟨a, b + n, by omega, siblings, fun texts => ih texts (rest texts) onward⟩
  | attempt body next _ ih =>
    obtain ⟨a, b, bound, inside, rest⟩ := effort
    exact ⟨a, b + n, by omega, inside, fun result => ih result (rest result) onward⟩
  | nil | cons => trivial

/-- The same rendering several times in a row. -/
theorem Effort.times (effort : r.Effort now n) (count : Nat) :
    (Rendering.times count r).Effort now (count * n) := by
  induction count with
  | zero => trivial
  | succ count ih =>
    have shown (first : String) :
        ((Rendering.times count r).andThen fun rest => done (first ++ rest)).Effort now
          (count * n + 0) :=
      ih.andThen fun _ => trivial
    rw [Nat.succ_mul, Nat.add_comm (count * n)]
    exact effort.andThen shown

/-! ### Waiting -/

mutual

/-- What is left of a rendering that was asked, and is not over, waits for a sleep. -/
theorem Effort.exists_alarm {r : Rendering} {n : Nat} (effort : r.Effort now n) (rests : r.Rests now)
    (waits : r.isOver = false) : ∃ alarm, alarm ∈ r.alarms := by
  have sleeping {p : Pace} (settles : p.never = false) (rests : p.Rests now) :
      ∃ alarm, p.alarm? = some alarm := by
    -- A value that settles waits for its first sleep, which runs once the value has been asked.
    unfold Pace.Rests at rests
    split at rests <;> rename_i sleeps
    · rw [settles] at rests
      cases rests
    · rename_i s _
      cases s with
      | idle => cases rests
      | running alarm => exact ⟨alarm, by simp [Pace.alarm?, sleeps, Sleep.alarm?]⟩
  cases r with
  | done | failed | panicked => cases waits
  | wait pace next =>
    obtain ⟨alarm, isRunning⟩ := sleeping effort.1 rests
    exact ⟨alarm, Option.mem_toList.2 isRunning⟩
  | race r inTime late =>
    obtain ⟨alarm, isRunning⟩ := sleeping effort.1 (Race.Rests.pace rests)
    exact ⟨alarm, List.mem_append_left _ (Option.mem_toList.2 isRunning)⟩
  | join parts next =>
    obtain ⟨a, b, -, siblings, -⟩ := effort
    exact EffortAll.exists_alarm siblings rests.2 rests.1
  | attempt body next =>
    obtain ⟨a, b, -, inside, -⟩ := effort
    exact inside.exists_alarm rests.2 rests.1
  | note | claim | number | outstanding | register => cases rests
termination_by structural r

/-- So does a group of siblings that waits. -/
theorem EffortAll.exists_alarm {parts : List Rendering} {n : Nat} {prompt : Bool}
    (effort : EffortAll parts now n) (rests : RestsAll now parts)
    (waits : verdictFrom prompt true parts = .waiting) : ∃ alarm, alarm ∈ alarmsOfAll parts := by
  cases parts with
  | nil => simp [verdictFrom] at waits
  | cons part rest =>
    obtain ⟨a, b, -, first, others⟩ := effort
    cases ended : part.isOver with
    | false =>
      obtain ⟨alarm, here⟩ := first.exists_alarm rests.1 ended
      exact ⟨alarm, List.mem_append_left _ here⟩
    | true =>
      -- A sibling that is over is there, so the group waits for the others.
      have goesOn : part.endsGroup prompt true = false :=
        Bool.eq_false_iff.2 fun ends => not_waiting_of_endsGroup ends rest waits
      have waits := waiting_of_cons waits
      rw [isDone_of_isOver ended goesOn, Bool.and_true] at waits
      obtain ⟨alarm, there⟩ := EffortAll.exists_alarm others rests.2 waits
      exact ⟨alarm, List.mem_append_right _ there⟩
termination_by structural parts

end

end

end Rendering

/-! ### Asking -/

namespace Rendering

variable {r r' : Rendering} {w w' : EventLoop} {handed : List Registration} {n : Nat}

/-- A step takes off three for each fragment that it hands in, and what is to come of the content. -/
theorem Effort.step (step : Step r w handed r' w') (effort : r.Effort w.now n) :
    ∃ a b, r'.Effort w'.now a ∧ EffortAll (handed.map (·.task.work)) w'.now b ∧
      a + b + 3 * handed.length ≤ n := by
  have still {r' : Rendering} {w w' : EventLoop} {n a : Nat} (now : w'.now = w.now)
      (effort : r'.Effort w.now a) (fewer : a ≤ n) : ∃ a b, r'.Effort w'.now a ∧
        EffortAll (([] : List Registration).map (·.task.work)) w'.now b ∧
        a + b + 3 * ([] : List Registration).length ≤ n :=
    ⟨a, 0, now ▸ effort, trivial, fewer⟩
  induction step generalizing n with
  | note | claim => exact still rfl effort (Nat.le_refl n)
  | refuse | panicBody | failPart | panicPart => exact still rfl (a := 0) trivial (Nat.zero_le n)
  | number | outstanding => exact still rfl (effort _) (Nat.le_refl n)
  | register content next w =>
    -- What is to come of the content goes to the task; the three that are left over are for handing it in.
    obtain ⟨a, b, bound, handedIn, onward⟩ := effort
    refine ⟨b, a, onward _, ⟨a, 0, Nat.le_refl a, handedIn _, trivial⟩, ?_⟩
    rw [List.length_singleton]
    omega
  | @wait pace left timeline w asked next =>
    obtain ⟨settles, a, bound, onward⟩ := effort
    obtain ⟨shorter, never⟩ := Pace.ahead_poll asked
    have now := pace.poll_now w.timeline
    rw [asked] at now
    exact still now ⟨never.trans settles, a, Nat.le_refl _, onward⟩
      (Nat.le_trans (Nat.add_le_add_right shorter a) bound)
  | @settle pace timeline w asked next =>
    obtain ⟨settles, a, bound, onward⟩ := effort
    have now := pace.poll_now w.timeline
    rw [asked] at now
    exact still now onward (Nat.le_of_add_left_le bound)
  | @race r left timeline w asked inTime late =>
    obtain ⟨settles, a, bound, settled, timedOut⟩ := effort
    obtain ⟨shorter, never⟩ := Race.ahead_poll asked
    have now := r.poll_now w.timeline
    rw [asked] at now
    exact still now ⟨never.trans settles, a, Nat.le_refl _, settled, timedOut⟩
      (Nat.le_trans (Nat.add_le_add_right shorter a) bound)
  | @inTime r timeline w asked inTime late =>
    obtain ⟨settles, a, bound, settled, timedOut⟩ := effort
    have now := r.poll_now w.timeline
    rw [asked] at now
    exact still now settled (Nat.le_of_add_left_le bound)
  | @late r pace timeline w asked inTime late =>
    -- The value goes on with what is left of its time, which is no more than the race had left.
    obtain ⟨settles, a, bound, settled, timedOut⟩ := effort
    obtain ⟨shorter, never⟩ := Race.ahead_timedOut asked
    have now := r.poll_now w.timeline
    rw [asked] at now
    exact still now (timedOut w.now pace (Nat.le_refl _) (never.trans settles))
      (Nat.le_trans (Nat.add_le_add_right shorter a) bound)
  | part step before after next ih =>
    obtain ⟨a, b, bound, siblings, onward⟩ := effort
    obtain ⟨c, d, within, earlier, e, f, inside, here, others⟩ := effortAll_append.1 siblings
    obtain ⟨e', given, here, handedIn, fewer⟩ := ih here
    rw [← step.atOnce.now] at earlier others onward
    refine ⟨c + (e' + f) + b, given, ⟨_, b, Nat.le_refl _, ?_, onward⟩, handedIn, by omega⟩
    exact effortAll_append.2 ⟨c, e' + f, Nat.le_refl _, earlier, e', f, Nat.le_refl _, here, others⟩
  | complete stands next w =>
    obtain ⟨a, b, bound, siblings, onward⟩ := effort
    exact still rfl (onward _) (Nat.le_of_add_left_le bound)
  | body step next ih =>
    obtain ⟨a, b, bound, inside, onward⟩ := effort
    obtain ⟨a', given, inside, handedIn, fewer⟩ := ih inside
    rw [← step.atOnce.now] at onward
    exact ⟨a' + b, given, ⟨a', b, Nat.le_refl _, inside, onward⟩, handedIn, by omega⟩
  | succeed markup next w | recover error next w =>
    obtain ⟨a, b, bound, inside, onward⟩ := effort
    exact still rfl (onward _) (Nat.le_of_add_left_le bound)

theorem Effort.steps (steps : Steps r w handed r' w') (effort : r.Effort w.now n) :
    ∃ a b, r'.Effort w'.now a ∧ EffortAll (handed.map (·.task.work)) w'.now b ∧
      a + b + 3 * handed.length ≤ n := by
  induction steps generalizing n with
  | refl => exact ⟨n, 0, effort, trivial, Nat.le_refl n⟩
  | head step rest ih =>
    obtain ⟨a, b, effort, handedIn, fewer⟩ := effort.step step
    obtain ⟨c, d, effort, others, fewest⟩ := ih effort
    rw [← rest.atOnce.now] at handedIn
    refine ⟨c, b + d, effort, ?_, ?_⟩
    · rw [List.map_append]
      exact effortAll_append.2 ⟨b, d, Nat.le_refl _, handedIn, others⟩
    · rw [List.length_append]
      omega

end Rendering

end ProgressiveHtml
