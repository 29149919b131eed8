import ProgressiveHtml.Proofs.Rendering.Deadlines

namespace ProgressiveHtml

/-!
# Eventual values — what is to come of a value

A value that is asked whenever one of its sleeps ends starts each of them once, settles when the last
one is over, and writes this down.  So the timeline at that instant can be told beforehand, and neither
asking the value nor racing it against a timer changes what is told; the timer only adds its own sleep.

* `Sleep.unstarted` — how many sleeps are still to be started;
* `Pace.forecast`, `Race.forecast` — the timeline once the value has settled;
* `Pace.poll_forecast`, `Race.poll_forecast` — asking fulfils the forecast or keeps it.
-/

namespace Sleep

/-- Whether the sleep is still to be started.  A sleep of no length never is. -/
def isUnstarted : Sleep → Bool
  | idle length => length != 0
  | running _ => false

/-- How many sleeps are still to be started. -/
def unstarted (sleeps : List Sleep) : Nat := sleeps.countP isUnstarted

/-- What is asked is started if it is still to be started, and nothing else happens. -/
theorem poll_unstarted (s : Sleep) (t : Timeline) :
    ∃ count, (s.poll t).2 = { t with sleeps := count } ∧
      count + unstarted (s.poll t).1.toList = t.sleeps + unstarted [s] := by
  cases s with
  | idle length =>
    cases length with
    | zero => exact ⟨t.sleeps, rfl, rfl⟩
    | succ length => exact ⟨t.sleeps + 1, rfl, rfl⟩
  | running alarm =>
    rw [poll]
    split
    · exact ⟨t.sleeps, rfl, rfl⟩
    · exact ⟨t.sleeps, rfl, rfl⟩

/-- Sleeps that are asked one after the other are started as they come up, and nothing else happens. -/
theorem pollAll_unstarted (sleeps : List Sleep) (t : Timeline) :
    ∃ count, (pollAll sleeps t).2 = { t with sleeps := count } ∧
      count + unstarted (pollAll sleeps t).1 = t.sleeps + unstarted sleeps := by
  induction sleeps generalizing t with
  | nil => exact ⟨t.sleeps, rfl, rfl⟩
  | cons s rest ih =>
    have split (others : List Sleep) (s : Sleep) :
        unstarted (s :: others) = unstarted others + unstarted [s] := by
      simp only [unstarted, List.countP_cons, List.countP_nil, Nat.zero_add]
    obtain ⟨first, same, counted⟩ := s.poll_unstarted t
    rw [pollAll_cons, split rest s, same]
    cases asked : (s.poll t).1 <;> rw [asked] at counted
    case none =>
      obtain ⟨count, later, all⟩ := ih { t with sleeps := first }
      simp only [Option.toList_none, unstarted, List.countP_nil] at counted all ⊢
      exact ⟨count, later, by omega⟩
    case some left =>
      refine ⟨first, rfl, ?_⟩
      rw [split rest left]
      simp only [Option.toList_some] at counted
      omega

end Sleep

namespace Pace

/-- The timeline once the value has settled, if it is asked whenever one of its sleeps ends and nothing
    else happens. -/
def forecast (p : Pace) (t : Timeline) : Timeline :=
  { p.begin t with
    now := Sleep.overAll t.now p.sleeps
    sleeps := t.sleeps + Sleep.unstarted p.sleeps }.note (.settled p.label)

/-- A value is started only once. -/
theorem begin_of_begun {p : Pace} (begun : p.begun = true) (t : Timeline) : p.begin t = t :=
  if_pos begun

/-- Sleeps of something else make as many more in the forecast. -/
theorem forecast_sleeps (p : Pace) (t : Timeline) (others : Nat) :
    p.forecast { t with sleeps := t.sleeps + others } =
      { p.forecast t with sleeps := (p.forecast t).sleeps + others } := by
  unfold forecast begin
  split <;> simp [Timeline.note, Nat.add_right_comm]

/-- What is told of a value that is on its way does not depend on when it is asked. -/
theorem Awaits.forecast_eq {p : Pace} {t : Timeline} {now : Nat} (awaits : p.Awaits now)
    (ever : p.never = false) (other : Nat) : p.forecast { t with now := other } = p.forecast t := by
  obtain running | ⟨-, never⟩ := awaits.sleeps
  · simp only [forecast, begin_of_begun awaits.begun, (running.overAll_eq other).1,
      (running.overAll_eq t.now).1]
  · rw [ever] at never
    cases never

/-- A value that is asked in time settles as was told, or what is told of it stays the same. -/
theorem poll_forecast {p : Pace} {t : Timeline} (timely : Sleep.Timely t.now p.sleeps)
    (ever : p.never = false) :
    (∀ {timeline}, p.poll t = (none, timeline) → timeline = p.forecast t) ∧
      ∀ {left timeline}, p.poll t = (some left, timeline) →
        left.forecast timeline = p.forecast t := by
  obtain ⟨count, same, counted⟩ := Sleep.pollAll_unstarted p.sleeps (p.begin t)
  have onward := Sleep.pollAll_cases (t := p.begin t) (by rwa [begin_now])
  have noneYet : (p.begin t).sleeps = t.sleeps := by
    unfold begin
    split <;> rfl
  rw [begin_now] at onward
  rw [noneYet] at counted
  unfold poll
  rcases asked : Sleep.pollAll p.sleeps (p.begin t) with ⟨left, timeline⟩
  rw [asked] at same counted onward
  dsimp only at same counted onward
  subst same
  -- `counted`: the sleeps of the timeline and those still to begin are as many together as before.
  obtain ⟨rfl, isDue⟩ | ⟨running, isDue⟩ := onward
  · rw [Sleep.unstarted, List.countP_nil, Nat.add_zero] at counted
    simp only [ever, forecast, isDue, ← counted]
    refine ⟨?_, nofun⟩
    rintro _ ⟨rfl⟩
    rw [← p.begin_now t]
  · cases left with
    | nil => exact absurd rfl running.ne_nil
    | cons s rest =>
      refine ⟨nofun, ?_⟩
      rintro _ _ ⟨rfl, rfl⟩
      simp only [forecast, begin_of_begun, begin_now, isDue, ← counted]

end Pace

namespace Race

/-- The timeline once the value has settled, with the sleep of the timer. -/
def forecast (r : Race) (t : Timeline) : Timeline :=
  r.pace.forecast { t with sleeps := t.sleeps + Sleep.unstarted [r.timer] }

/-- What is told of a value stays the same while it is raced, also when the timer is first. -/
theorem poll_forecast {r : Race} {t : Timeline} (timely : Sleep.Timely t.now r.pace.sleeps)
    (ever : r.pace.never = false) :
    (∀ {pace timeline}, r.poll t = (.timedOut pace, timeline) →
      pace.forecast timeline = r.forecast t) ∧
      ∀ {left timeline}, r.poll t = (.running left, timeline) →
        left.forecast timeline = r.forecast t := by
  unfold poll
  rcases polled : r.pace.poll t with ⟨_ | pace, timeline⟩
  · exact ⟨nofun, nofun⟩
  · have same := (Pace.poll_forecast timely ever).2 polled
    obtain ⟨count, timed, counted⟩ := r.timer.poll_unstarted timeline
    have told : pace.forecast { timeline with sleeps := timeline.sleeps + Sleep.unstarted [r.timer] } =
        r.forecast t := by
      rw [forecast, Pace.forecast_sleeps, Pace.forecast_sleeps, same]
    rcases rung : r.timer.poll timeline with ⟨_ | left, after⟩ <;> rw [rung] at timed counted <;>
      dsimp only at timed counted ⊢ <;> subst timed <;> rw [← counted] at told
    · simp only [rung]
      refine ⟨?_, nofun⟩
      rintro _ _ ⟨⟩
      exact told
    · simp only [rung]
      refine ⟨nofun, ?_⟩
      rintro _ _ ⟨⟩
      exact told

end Race

end ProgressiveHtml
