import ProgressiveHtml.EventLoop.Poll

namespace ProgressiveHtml

/-!
# Renderings — at rest

A rendering that was asked has gone on as far as it gets.  It is over, or all that it still waits for
lies ahead.

* `Pace.Rests`, `Race.Rests`, `Rendering.Rests` — what is left of something that was asked;
* `Rendering.rests_poll` — asking a rendering leaves it at rest;
* `Rendering.Rests.ahead` — the sleeps that it waits for end later;
* `Rendering.Rests.later` — until the first of them ends, it stays at rest.
-/

/-- A sleep that was asked and is not over. -/
def Sleep.Rests (now : Nat) : Sleep → Prop
  | idle _ => False
  | running alarm => now < alarm.deadline

/-- A pace that was asked and has not settled: its first sleep is running, or it never settles. -/
def Pace.Rests (now : Nat) (p : Pace) : Prop :=
  match p.sleeps with
  | [] => p.never
  | s :: _ => s.Rests now

/-- The alarm of a sleep that is not over lies ahead. -/
theorem Sleep.Rests.ahead {now : Nat} {s : Sleep} (rests : s.Rests now) {alarm : Alarm}
    (isRunning : s.alarm? = some alarm) : now < alarm.deadline := by
  cases s with
  | idle => cases isRunning
  | running => exact Option.some.inj isRunning ▸ rests

/-- What is at rest is so until the first of its sleeps ends. -/
theorem Sleep.Rests.later {s : Sleep} {now later : Nat} (rests : s.Rests now)
    (ahead : ∀ alarm, s.alarm? = some alarm → later < alarm.deadline) : s.Rests later := by
  cases s with
  | idle => exact rests
  | running alarm => exact ahead alarm rfl

theorem Pace.Rests.ahead {now : Nat} {p : Pace} (rests : p.Rests now) {alarm : Alarm}
    (isRunning : p.alarm? = some alarm) : now < alarm.deadline := by
  obtain ⟨s, first, isRunning⟩ := Option.bind_eq_some_iff.1 isRunning
  unfold Rests at rests
  split at rests <;> rename_i sleeps <;> rw [sleeps] at first
  · cases first
  · exact Sleep.Rests.ahead (Option.some.inj first ▸ rests) isRunning

theorem Pace.Rests.later {p : Pace} {now later : Nat} (rests : p.Rests now)
    (ahead : ∀ alarm, p.alarm? = some alarm → later < alarm.deadline) : p.Rests later := by
  unfold Rests at rests ⊢
  split at rests <;> rename_i sleeps
  · exact rests
  · refine Sleep.Rests.later rests fun alarm isRunning => ahead alarm ?_
    simpa [Pace.alarm?, sleeps] using isRunning

/-- A race that was asked and is not decided. -/
structure Race.Rests (now : Nat) (r : Race) : Prop where
  pace : r.pace.Rests now
  timer : r.timer.Rests now

theorem Race.Rests.ahead {now : Nat} {r : Race} (rests : r.Rests now) {alarm : Alarm}
    (isRunning : alarm ∈ r.alarms) : now < alarm.deadline := by
  simp only [alarms, List.mem_append, Option.mem_toList] at isRunning
  obtain value | timer := isRunning
  · exact rests.pace.ahead value
  · exact rests.timer.ahead timer

namespace Sleep

theorem rests_poll {s left : Sleep} {t timeline : Timeline}
    (asked : s.poll t = (some left, timeline)) : left.Rests t.now := by
  unfold poll at asked
  split at asked
  · simp at asked
  · rename_i length nonzero
    simp only [Prod.mk.injEq, Option.some.injEq] at asked
    rw [← asked.1]
    exact Nat.lt_add_of_pos_right (Nat.pos_of_ne_zero nonzero)
  · split at asked <;> rename_i ended
    · simp at asked
    · simp only [Prod.mk.injEq, Option.some.injEq] at asked
      rw [← asked.1]
      exact Nat.lt_of_not_le ended

theorem rests_pollAll {sleeps : List Sleep} {t : Timeline} {s : Sleep}
    (isFirst : (pollAll sleeps t).1.head? = some s) : s.Rests t.now := by
  induction sleeps generalizing t with
  | nil => simp [pollAll] at isFirst
  | cons first rest ih =>
    rw [pollAll_cons] at isFirst
    cases asked : (first.poll t).1 <;> rw [asked] at isFirst
    case none => exact first.poll_now t ▸ ih isFirst
    case some left =>
      obtain rfl : left = s := Option.some.inj isFirst
      exact rests_poll (Prod.ext asked rfl)

end Sleep

theorem Pace.rests_poll {p left : Pace} {t timeline : Timeline}
    (asked : p.poll t = (some left, timeline)) : left.Rests t.now := by
  unfold poll at asked
  split at asked <;> rename_i sleeps
  · split at asked <;> rename_i never
    · simp only [Prod.mk.injEq, Option.some.injEq] at asked
      rw [← asked.1]
      exact never
    · simp at asked
  · rename_i nonempty
    simp only [Prod.mk.injEq, Option.some.injEq] at asked
    rw [← asked.1]
    have rests (s : Sleep) (isFirst : (Sleep.pollAll p.sleeps (p.begin t)).1.head? = some s) :
        s.Rests t.now := by
      simpa using Sleep.rests_pollAll isFirst
    rw [sleeps] at rests
    unfold Rests
    split
    · rename_i none
      exact absurd none nonempty
    · rename_i s _ first
      exact rests s (congrArg List.head? first)

theorem Race.rests_poll {r left : Race} {t timeline : Timeline}
    (asked : r.poll t = (.running left, timeline)) : left.Rests t.now := by
  unfold poll at asked
  split at asked <;> rename_i pace
  · simp at asked
  · have still := r.pace.poll_now t
    rw [pace] at still
    split at asked <;> rename_i timer
    · simp at asked
    · simp only [Prod.mk.injEq, Standing.running.injEq] at asked
      rw [← asked.1]
      exact ⟨Pace.rests_poll pace, still ▸ Sleep.rests_poll timer⟩

namespace Rendering

mutual

/-- What is left of a rendering that was asked at the given instant. -/
def Rests (now : Nat) : Rendering → Prop
  | done _ | failed _ | panicked _ => True
  | wait pace _ => pace.Rests now
  | race r _ _ => r.Rests now
  | join parts _ => verdict parts = .waiting ∧ RestsAll now parts
  | attempt body _ => body.isOver = false ∧ body.Rests now
  | _ => False
termination_by structural r => r

/-- What is left of siblings that were asked. -/
def RestsAll (now : Nat) : List Rendering → Prop
  | [] => True
  | part :: rest => part.Rests now ∧ RestsAll now rest
termination_by structural parts => parts

end

/-- A sibling that ends its group leaves nothing to wait for. -/
theorem not_waiting_of_endsGroup {part : Rendering} {prompt settled : Bool}
    (ends : part.endsGroup prompt settled) (rest : List Rendering) :
    verdictFrom prompt settled (part :: rest) ≠ .waiting := by
  cases part with
  | panicked => simp [verdictFrom]
  | failed =>
    have counts : (prompt || settled) = true := ends
    simp [verdictFrom, counts]
  | _ => simp [endsGroup] at ends

/-- A group that waits does so because of what comes after a sibling that is asked first. -/
theorem waiting_of_cons {part : Rendering} {prompt settled : Bool} {rest : List Rendering}
    (waits : verdictFrom prompt settled (part :: rest) = .waiting) :
    verdictFrom prompt (settled && part.isDone) rest = .waiting := by
  cases part with
  | done markup =>
    rw [isDone, Bool.and_true]
    cases others : verdictFrom prompt settled rest <;> simp [verdictFrom, others] at waits ⊢
  | panicked => simp [verdictFrom] at waits
  | failed error =>
    show verdictFrom prompt (settled && false) rest = .waiting
    cases counts : (prompt || settled) <;> simp [verdictFrom, counts] at waits ⊢
    exact waits
  | _ => simpa [isDone, verdictFrom] using waits

/-- An attempt waits as long as its body does. -/
theorem poll_attempt_of_waits {body : Rendering} {w : EventLoop}
    (waits : (body.poll w).1.isOver = false) {next : Except RenderError String → Rendering} :
    (attempt body next).poll w = (attempt (body.poll w).1 next, (body.poll w).2) := by
  rw [poll_attempt]
  generalize (body.poll w).1 = left at waits
  cases left with
  | done | failed | panicked => cases waits
  | _ => rfl

mutual

/-- Asking a rendering leaves it at rest. -/
theorem rests_poll (r : Rendering) {w : EventLoop} {now : Nat} (present : w.now = now) :
    (r.poll w).1.Rests now := by
  cases r with
  | done | failed | panicked => trivial
  | note event next => exact next.rests_poll (w := w.note event) present
  | claim cell next =>
    rw [poll]
    split
    · trivial
    · exact next.rests_poll present
  | number size next => exact (next w.cells).rests_poll present
  | outstanding next => exact (next w.registry.pending).rests_poll present
  | register content next => exact (next _).rests_poll (w := (w.register content).2) present
  | wait pace next =>
    have still := (pace.poll_now w.timeline).trans present
    rw [poll_wait]
    cases asked : (pace.poll w.timeline).1 with
    | none => exact next.rests_poll still
    | some left => exact present ▸ Pace.rests_poll (Prod.ext asked rfl)
  | race r inTime late =>
    have still := (r.poll_now w.timeline).trans present
    rw [poll_race]
    cases asked : (r.poll w.timeline).1 with
    | settled => exact inTime.rests_poll still
    | timedOut pace => exact (late pace).rests_poll still
    | running left => exact present ▸ Race.rests_poll (Prod.ext asked rfl)
  | join parts next =>
    have rest := rests_pollAll (isPrompt parts.length) true parts present
    have still := (pollAll_now (isPrompt parts.length) true parts w).trans present
    rw [poll_join]
    cases stands : verdict (pollAll (isPrompt parts.length) true parts w).1 with
    | complete texts => exact (next texts).rests_poll still
    | failed | panicked => trivial
    | waiting =>
      -- A group that waits has asked all parts that it still waits for.
      refine ⟨stands, rest ?_⟩
      rwa [verdict, length_pollAll] at stands
  | attempt body next =>
    have rest := body.rests_poll present
    have still := (body.poll_now w).trans present
    rw [poll_attempt]
    generalize (body.poll w).1 = left at rest
    cases left with
    | done markup => exact (next (.ok markup)).rests_poll still
    | failed error => exact (next (.error error)).rests_poll still
    | panicked => trivial
    | _ => exact ⟨rfl, rest⟩
termination_by structural r

/-- Asking the siblings of a group that then waits leaves all of them at rest. -/
theorem rests_pollAll (prompt settled : Bool) (parts : List Rendering) {w : EventLoop} {now : Nat}
    (present : w.now = now)
    (waits : verdictFrom prompt settled (pollAll prompt settled parts w).1 = .waiting) :
    RestsAll now (pollAll prompt settled parts w).1 := by
  cases parts with
  | nil => trivial
  | cons part rest =>
    rw [pollAll_cons] at waits ⊢
    split at waits <;> rename_i ends
    -- Where the group ends early the others are left unasked, but then it does not wait.
    · exact absurd waits (not_waiting_of_endsGroup ends rest)
    · rw [if_neg ends]
      have still := (part.poll_now w).trans present
      exact ⟨part.rests_poll present, rests_pollAll prompt _ rest still (waiting_of_cons waits)⟩
termination_by structural parts

/-- Asking siblings does not change how many there are. -/
theorem length_pollAll (prompt settled : Bool) (parts : List Rendering) (w : EventLoop) :
    (pollAll prompt settled parts w).1.length = parts.length := by
  cases parts with
  | nil => rfl
  | cons part rest =>
    rw [pollAll_cons]
    split
    · rfl
    · exact congrArg (· + 1) (length_pollAll prompt _ rest _)
termination_by structural parts

end

mutual

/-- The sleeps that a rendering at rest waits for end later. -/
theorem Rests.ahead {r : Rendering} {now : Nat} (rests : r.Rests now) :
    ∀ alarm ∈ r.alarms, now < alarm.deadline := by
  intro alarm isRunning
  cases r with
  | wait pace next => exact Pace.Rests.ahead rests (Option.mem_toList.1 isRunning)
  | race r inTime late => exact Race.Rests.ahead rests isRunning
  | join parts next => exact RestsAll.ahead rests.2 alarm isRunning
  | attempt body next => exact rests.2.ahead alarm isRunning
  | _ => simp [alarms] at isRunning
termination_by structural r

theorem RestsAll.ahead {parts : List Rendering} {now : Nat} (rests : RestsAll now parts) :
    ∀ alarm ∈ alarmsOfAll parts, now < alarm.deadline := by
  intro alarm isRunning
  cases parts with
  | nil => cases isRunning
  | cons part rest =>
    obtain mine | other := List.mem_append.1 isRunning
    · exact rests.1.ahead alarm mine
    · exact RestsAll.ahead rests.2 alarm other
termination_by structural parts

end

mutual

/-- A rendering at rest is so until the first of its sleeps ends. -/
theorem Rests.later {r : Rendering} {now later : Nat} (rests : r.Rests now)
    (ahead : ∀ alarm ∈ r.alarms, later < alarm.deadline) : r.Rests later := by
  cases r with
  | done | failed | panicked => trivial
  | wait pace next =>
    exact Pace.Rests.later rests fun alarm isRunning => ahead alarm (Option.mem_toList.2 isRunning)
  | race r inTime late =>
    obtain ⟨pace, timer⟩ := rests
    refine ⟨pace.later fun alarm isRunning => ?_, timer.later fun alarm isRunning => ?_⟩
    · exact ahead alarm (List.mem_append_left _ (Option.mem_toList.2 isRunning))
    · exact ahead alarm (List.mem_append_right _ (Option.mem_toList.2 isRunning))
  | join parts next => exact ⟨rests.1, RestsAll.later rests.2 ahead⟩
  | attempt body next => exact ⟨rests.1, rests.2.later ahead⟩
  | note | claim | number | outstanding | register => exact rests
termination_by structural r

theorem RestsAll.later {parts : List Rendering} {now later : Nat} (rests : RestsAll now parts)
    (ahead : ∀ alarm ∈ alarmsOfAll parts, later < alarm.deadline) : RestsAll later parts := by
  cases parts with
  | nil => trivial
  | cons part rest =>
    exact ⟨rests.1.later fun alarm here => ahead alarm (List.mem_append_left _ here),
      RestsAll.later rests.2 fun alarm there => ahead alarm (List.mem_append_right _ there)⟩
termination_by structural parts

end

end Rendering

end ProgressiveHtml
