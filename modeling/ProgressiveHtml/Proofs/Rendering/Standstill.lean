import ProgressiveHtml.Proofs.Rendering.Abreast
import ProgressiveHtml.Proofs.Rendering.Deeds

namespace ProgressiveHtml

/-!
# Renderings — at a standstill

A rendering that was asked to go on can then only wait.  Until the first of its sleeps has ended, asking it
again changes nothing at all: neither the rendering nor anything else, not even the journal.

* `Rendering.Stays` — what is not changed by asking it;
* `Rendering.stays_poll` — what is left of a rendering that was asked.
-/

/-- A value that was asked and has not settled is not changed by asking it again before its sleep has
    ended. -/
theorem Pace.stays_poll {p left : Pace} {t timeline later : Timeline}
    (asked : p.poll t = (some left, timeline))
    (ahead : ∀ alarm ∈ left.alarm?, t.now < alarm.deadline → later.now < alarm.deadline) :
    left.poll later = (some left, later) := by
  have rests := Pace.rests_poll asked
  have still : left.Rests later.now :=
    rests.later fun alarm isRunning => ahead alarm isRunning (rests.ahead isRunning)
  have begun : left.begun = true := Pace.begun_of_poll asked
  rw [Pace.poll_of_rests still, begin, if_pos begun, ← begun]

/-- Nor is a race that is not decided. -/
theorem Race.stays_poll {r left : Race} {t timeline later : Timeline}
    (asked : r.poll t = (.running left, timeline))
    (ahead : ∀ alarm ∈ left.alarms, t.now < alarm.deadline → later.now < alarm.deadline) :
    left.poll later = (.running left, later) := by
  have rests := Race.rests_poll asked
  have still : left.Rests later.now := by
    have later (alarm : Alarm) (isRunning : alarm ∈ left.alarms) : later.now < alarm.deadline :=
      ahead alarm isRunning (rests.ahead isRunning)
    refine ⟨rests.pace.later fun alarm isRunning => later alarm ?_,
      rests.timer.later fun alarm isRunning => later alarm ?_⟩
    · exact List.mem_append_left _ (Option.mem_toList.2 isRunning)
    · exact List.mem_append_right _ (Option.mem_toList.2 isRunning)
  obtain ⟨before, first⟩ := Race.pace_of_poll (.inr ⟨left.timer, asked⟩)
  have begun : left.pace.begun = true := Pace.begun_of_poll first
  rw [Race.poll_of_rests still, Pace.begin, if_pos begun, ← begun]

namespace Rendering

/-- Asking the rendering changes nothing before one of its sleeps has ended that ends after the instant
    `since`. -/
def Stays (since : Nat) (r : Rendering) : Prop :=
  ∀ w : EventLoop, (∀ alarm ∈ r.alarms, since < alarm.deadline → w.now < alarm.deadline) →
    r.poll w = (r, w)

mutual

/-- What is left of a rendering that was asked is not changed by asking it again. -/
theorem stays_poll (r : Rendering) {w : EventLoop} {now : Nat} (present : w.now = now) :
    (r.poll w).1.Stays now := by
  cases r with
  | done | failed | panicked => exact fun _ _ => rfl
  | note event next => exact next.stays_poll (w := w.note event) present
  | claim cell next =>
    rw [poll]
    split
    · exact fun _ _ => rfl
    · exact next.stays_poll present
  | number size next => exact (next w.cells).stays_poll present
  | outstanding next => exact (next w.registry.pending).stays_poll present
  | register content next => exact (next _).stays_poll (w := (w.register content).2) present
  | wait pace next =>
    have still := (pace.poll_now w.timeline).trans present
    rw [poll_wait]
    cases asked : (pace.poll w.timeline).1 with
    | none => exact next.stays_poll still
    | some left =>
      intro v ahead
      have same : left.poll v.timeline = (some left, v.timeline) :=
        Pace.stays_poll (Prod.ext asked rfl) fun alarm isRunning early =>
          ahead alarm (Option.mem_toList.2 isRunning) (present ▸ early)
      rw [poll, same]
  | race r inTime late =>
    have still := (r.poll_now w.timeline).trans present
    rw [poll_race]
    cases asked : (r.poll w.timeline).1 with
    | settled => exact inTime.stays_poll still
    | timedOut pace => exact (late pace).stays_poll still
    | running left =>
      intro v ahead
      have same : left.poll v.timeline = (.running left, v.timeline) :=
        Race.stays_poll (Prod.ext asked rfl) fun alarm isRunning early =>
          ahead alarm isRunning (present ▸ early)
      rw [poll, same]
  | join parts next =>
    have stays := stays_pollAll (isPrompt parts.length) true parts present
    have still := (pollAll_now (isPrompt parts.length) true parts w).trans present
    have size := length_pollAll (isPrompt parts.length) true parts w
    rw [poll_join]
    cases stands : verdict (pollAll (isPrompt parts.length) true parts w).1 with
    | complete texts => exact (next texts).stays_poll still
    | failed | panicked => exact fun _ _ => rfl
    | waiting =>
      -- A group that waits has asked all parts that it still waits for, and none of them gets on.
      intro v ahead
      rw [poll_join, size, stays (by rwa [verdict, size] at stands) v ahead, stands]
  | attempt body next =>
    have stays := body.stays_poll present
    have still := (body.poll_now w).trans present
    by_cases ended : (body.poll w).1.isOver
    · rw [poll_attempt]
      generalize (body.poll w).1 = left at ended
      cases left with
      | done markup => exact (next (.ok markup)).stays_poll still
      | failed error => exact (next (.error error)).stays_poll still
      | panicked => exact fun _ _ => rfl
      | _ => cases ended
    · have waits : (body.poll w).1.isOver = false := Bool.not_eq_true _ ▸ ended
      rw [poll_attempt_of_waits waits]
      intro v ahead
      have same := stays v ahead
      rw [poll_attempt_of_waits (by rw [same]; exact waits), same]
termination_by structural r

/-- Nor are the siblings of a group that then waits. -/
theorem stays_pollAll (prompt settled : Bool) (parts : List Rendering) {w : EventLoop} {now : Nat}
    (present : w.now = now)
    (waits : verdictFrom prompt settled (pollAll prompt settled parts w).1 = .waiting) (v : EventLoop)
    (ahead : ∀ alarm ∈ alarmsOfAll (pollAll prompt settled parts w).1, now < alarm.deadline →
      v.now < alarm.deadline) :
    pollAll prompt settled (pollAll prompt settled parts w).1 v =
      ((pollAll prompt settled parts w).1, v) := by
  cases parts with
  | nil => rfl
  | cons part rest =>
    have stays := part.stays_poll present
    have still := (part.poll_now w).trans present
    rw [pollAll_cons] at waits ahead ⊢
    split at waits <;> rename_i ends
    -- Where the group ends early the others are left unasked, but then it does not wait.
    · exact absurd waits (not_waiting_of_endsGroup ends rest)
    · rw [if_neg ends] at ahead ⊢
      have here : (part.poll w).1.poll v = ((part.poll w).1, v) :=
        stays v fun alarm isRunning => ahead alarm (List.mem_append_left _ isRunning)
      have others := stays_pollAll prompt _ rest still (waiting_of_cons waits) v
        fun alarm isRunning => ahead alarm (List.mem_append_right _ isRunning)
      rw [pollAll_cons, here, if_neg ends, others]
termination_by structural parts

end

end Rendering

end ProgressiveHtml
