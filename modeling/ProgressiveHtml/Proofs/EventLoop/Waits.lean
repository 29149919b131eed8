import ProgressiveHtml.Proofs.EventLoop.Rest

namespace ProgressiveHtml

/-!
# Event loop — waiting, as far as it goes

What waiting comes to, told without a bound on the rounds and on the turns: the main task is asked, then all
woken fragments have their turns, until nobody is woken any more, and when there are none time passes.  With
enough turns the event loop waits just so.

* `Awaitable.Prompt` — what does all it can at an instant when it is asked first;
* `EventLoop.Waits`, `EventLoop.GoesOn` — what waiting comes to, and what it comes to from then on;
* `EventLoop.Waits.wait` — the event loop waits so, with enough turns;
* `EventLoop.exists_waits` — waiting comes to something;
* `EventLoop.goesOn_reaches` — waiting in vain up to an instant.
-/

variable {σ α : Type} {what : Awaitable σ α}

/-- Asking takes no time and keeps order.  What has nothing to give has done at an instant all that it can: it
    wakes nobody when it is asked again. -/
structure Awaitable.Prompt (what : Awaitable σ α) : Prop where
  now (s : σ) (w : EventLoop) : (what.poll s w).2.now = w.now
  orderly (s : σ) {w : EventLoop} (orderly : w.Orderly) : (what.poll s w).2.Orderly
  again {s s' s'' : σ} {w w' v v' : EventLoop} (asked : what.poll s w = (.pending s', w'))
    (same : v.now = w'.now) (idle : v.registry.queue = [])
    (asked' : what.poll s' v = (.pending s'', v')) : v'.registry.queue = []

namespace EventLoop

/-- What waiting up to the instant `limit` comes to. -/
inductive Waits (what : Awaitable σ α) (limit : Nat) : σ → EventLoop → Waited σ α × EventLoop → Prop
  | ready {s s' : σ} {w w' : EventLoop} {answer : α} (asked : what.poll s w = (.ready answer s', w')) :
      Waits what limit s w (.ready answer s', w')
  | panicked {s : σ} {w w' : EventLoop} {message : String} (asked : what.poll s w = (.panicked message, w')) :
      Waits what limit s w (.panicked message, w')
  | expired {s s' : σ} {w w' : EventLoop} (asked : what.poll s w = (.pending s', w'))
      (late : limit ≤ w'.now) : Waits what limit s w (.expired s', w')
  /-- All fragments that have been woken have their turns. -/
  | turns {s s' : σ} {w w' : EventLoop} {result : Waited σ α × EventLoop} {turns : Nat}
      (asked : what.poll s w = (.pending s', w')) (early : w'.now < limit)
      (busy : w'.registry.queue ≠ []) (rests : (w'.runQueue turns).registry.queue = [])
      (onward : Waits what limit s' (w'.runQueue turns) result) : Waits what limit s w result
  /-- Nobody has been woken, and time passes. -/
  | passes {s s' : σ} {w w' : EventLoop} {result : Waited σ α × EventLoop}
      (asked : what.poll s w = (.pending s', w')) (early : w'.now < limit)
      (idle : w'.registry.queue = [])
      (onward : Waits what limit s' (w'.jump (what.alarms s') limit) result) : Waits what limit s w result

variable {limit : Nat} {s s' : σ} {w w' : EventLoop} {result : Waited σ α × EventLoop}

/-- No time passes in turns. -/
theorem runQueue_now (turns : Nat) (w : EventLoop) : (w.runQueue turns).now = w.now :=
  runQueue_keeps (P := (·.now = w.now)) turns rfl fun {v} same => v.runNext_now.trans same

/-! ### Rounds -/

/-- The rounds that waiting takes up to the limit: two at every instant, or one where nobody is woken. -/
def Affords (what : Awaitable σ α) (limit rounds : Nat) (s : σ) (w : EventLoop) : Prop :=
  2 * (limit - w.now) + 2 ≤ rounds ∨
    2 * (limit - w.now) + 1 ≤ rounds ∧
      ∀ s' w', what.poll s w = (.pending s', w') → w'.registry.queue = []

namespace Affords

variable {rounds : Nat}

theorem exists_succ (affords : Affords what limit rounds s w) : ∃ left, rounds = left + 1 :=
  Nat.exists_eq_succ_of_ne_zero (by rcases affords with enough | ⟨enough, -⟩ <;> omega)

/-- After the turns one round is left for the same instant. -/
theorem turns (affords : Affords what limit (rounds + 1) s w) (prompt : what.Prompt)
    (asked : what.poll s w = (.pending s', w')) (busy : w'.registry.queue ≠ []) {turns : Nat}
    (rests : (w'.runQueue turns).registry.queue = []) :
    Affords what limit rounds s' (w'.runQueue turns) := by
  have now : w'.now = w.now := by
    rw [← prompt.now s w, asked]
  have same := w'.runQueue_now turns
  obtain enough | ⟨-, quiet⟩ := affords
  · exact .inr ⟨by omega, fun _ _ asked' => prompt.again asked same rests asked'⟩
  · exact absurd (quiet _ _ asked) busy

/-- Two rounds less are left when time has passed. -/
theorem passes (affords : Affords what limit (rounds + 1) s w) (prompt : what.Prompt)
    (asked : what.poll s w = (.pending s', w')) (early : w'.now < limit) (alarms : List Alarm) :
    Affords what limit rounds s' (w'.jump alarms limit) := by
  have now : w'.now = w.now := by
    rw [← prompt.now s w, asked]
  have later := w'.now_lt_nextInstant alarms early
  have inTime := w'.nextInstant_le_limit alarms limit
  have isNow : (w'.jump alarms limit).now = w'.nextInstant alarms limit := rfl
  refine .inl ?_
  rw [isNow]
  obtain enough | ⟨enough, -⟩ := affords <;> omega

end Affords

/-- In rounds enough, and with enough turns in each, the event loop comes to what waiting comes to. -/
theorem Waits.waitRounds (prompt : what.Prompt) (waits : Waits what limit s w result) :
    ∃ enough, ∀ turns, enough ≤ turns → ∀ rounds, Affords what limit rounds s w →
      EventLoop.waitRounds what turns limit rounds s w = result := by
  induction waits with
  | ready asked | panicked asked =>
    refine ⟨0, fun turns _ rounds affords => ?_⟩
    obtain ⟨rounds, rfl⟩ := affords.exists_succ
    rw [EventLoop.waitRounds, asked]
  | expired asked late =>
    refine ⟨0, fun turns _ rounds affords => ?_⟩
    obtain ⟨rounds, rfl⟩ := affords.exists_succ
    rw [EventLoop.waitRounds, asked]
    exact if_pos late
  | @turns s s' w w' result needed asked early busy rests _ ih =>
    obtain ⟨enough, same⟩ := ih
    refine ⟨max needed enough, fun turns more rounds affords => ?_⟩
    obtain ⟨rounds, rfl⟩ := affords.exists_succ
    rw [EventLoop.waitRounds, asked]
    dsimp only
    rw [if_neg (Nat.not_le.2 early), if_neg (by simpa using busy),
      runQueue_of_le rests (Nat.le_trans (Nat.le_max_left ..) more)]
    exact same turns (Nat.le_trans (Nat.le_max_right ..) more) rounds (affords.turns prompt asked busy rests)
  | @passes s s' w w' result asked early idle _ ih =>
    obtain ⟨enough, same⟩ := ih
    refine ⟨enough, fun turns more rounds affords => ?_⟩
    obtain ⟨rounds, rfl⟩ := affords.exists_succ
    rw [EventLoop.waitRounds, asked]
    dsimp only
    rw [if_neg (Nat.not_le.2 early), if_pos (by simpa using idle)]
    exact same turns more rounds (affords.passes prompt asked early _)

/-- With enough turns the event loop comes to what waiting comes to. -/
theorem Waits.wait (prompt : what.Prompt) (waits : Waits what limit s w result) :
    ∃ enough, ∀ turns, enough ≤ turns → w.wait what turns limit s = result := by
  obtain ⟨enough, same⟩ := waits.waitRounds prompt
  exact ⟨enough, fun turns more => same turns more _ (.inl (Nat.le_refl _))⟩

/-- Waiting comes to something. -/
theorem exists_waits (prompt : what.Prompt) (limit : Nat) (s : σ) {w : EventLoop} (orderly : w.Orderly) :
    ∃ result, Waits what limit s w result := by
  obtain ⟨rounds, affords⟩ : ∃ rounds, Affords what limit rounds s w := ⟨_, .inl (Nat.le_refl _)⟩
  induction rounds generalizing s w with
  | zero => cases affords.exists_succ.choose_spec
  | succ rounds ih =>
    have kept := prompt.orderly s orderly
    rcases asked : what.poll s w with ⟨_ | s' | _, w'⟩
    · exact ⟨_, .ready asked⟩
    · rw [asked] at kept
      by_cases late : limit ≤ w'.now
      · exact ⟨_, .expired asked late⟩
      · have early := Nat.lt_of_not_le late
        by_cases idle : w'.registry.queue = []
        · obtain ⟨result, onward⟩ := ih s' (kept.jump _ limit) (affords.passes prompt asked early _)
          exact ⟨result, .passes asked early idle onward⟩
        · obtain ⟨turns, rests⟩ := kept.exists_rest
          obtain ⟨result, onward⟩ := ih s' (kept.runQueue turns) (affords.turns prompt asked idle rests)
          exact ⟨result, .turns asked early idle rests onward⟩
    · exact ⟨_, .panicked asked⟩

/-! ### In vain -/

/-- What waiting comes to from when it has been asked in vain. -/
def GoesOn (what : Awaitable σ α) (limit : Nat) (s : σ) (w : EventLoop) (result : Waited σ α × EventLoop) :
    Prop :=
  (w.registry.queue ≠ [] ∧ ∃ turns, (w.runQueue turns).registry.queue = [] ∧
      Waits what limit s (w.runQueue turns) result) ∨
    w.registry.queue = [] ∧ Waits what limit s (w.jump (what.alarms s) limit) result

theorem GoesOn.waits (onward : GoesOn what limit s' w' result)
    (asked : what.poll s w = (.pending s', w')) (early : w'.now < limit) : Waits what limit s w result := by
  obtain ⟨busy, turns, rests, onward⟩ | ⟨idle, onward⟩ := onward
  · exact .turns asked early busy rests onward
  · exact .passes asked early idle onward

section

variable {P : σ → EventLoop → Prop} {instant : Nat} (prompt : what.Prompt) (inTime : instant ≤ limit)
  (orderly : ∀ {s w}, P s w → w.Orderly)
  (asked : ∀ {s w}, P s w → w.now < instant → ∃ s' w', what.poll s w = (.pending s', w') ∧ P s' w')
  (turn : ∀ {s w}, P s w → P s w.runNext)
  (pass : ∀ {s w}, P s w → w.registry.queue = [] → w.now < instant →
    w.nextInstant (what.alarms s) limit ≤ instant ∧
      (w.nextInstant (what.alarms s) limit < instant → P s (w.jump (what.alarms s) limit)))

include prompt inTime orderly asked turn pass

/-- What is in vain before an instant, whatever happens meanwhile, comes to this instant, if time never passes
    further at once. -/
theorem goesOn_reaches {first : σ} {before : EventLoop} (inVain : what.poll first before = (.pending s, w))
    (start : P s w) (early : w.now < instant) :
    ∃ s' w', P s' w' ∧ w'.registry.queue = [] ∧ w'.nextInstant (what.alarms s') limit = instant ∧
      ∀ result, Waits what limit s' (w'.jump (what.alarms s') limit) result →
        GoesOn what limit s w result := by
  obtain ⟨left, isLeft⟩ : ∃ left, instant - w.now = left := ⟨_, rfl⟩
  induction left using Nat.strong_induction_on generalizing first s before w with
  | _ left ih =>
    -- When nobody has been woken, time passes: to the instant, or to one before it.
    have ofIdle {s : σ} {w : EventLoop} (start : P s w) (idle : w.registry.queue = [])
        (early : w.now < instant) (isLeft : instant - w.now = left) : ∃ s' w', P s' w' ∧
          w'.registry.queue = [] ∧ w'.nextInstant (what.alarms s') limit = instant ∧
          ∀ result, Waits what limit s' (w'.jump (what.alarms s') limit) result →
            GoesOn what limit s w result := by
      obtain ⟨notAfter, onward⟩ := pass start idle early
      by_cases there : w.nextInstant (what.alarms s) limit = instant
      · exact ⟨s, w, start, idle, there, fun result waits => .inr ⟨idle, waits⟩⟩
      · have before := Nat.lt_of_le_of_ne notAfter there
        have later := w.now_lt_nextInstant (what.alarms s) (Nat.lt_of_lt_of_le early inTime)
        have isNow : (w.jump (what.alarms s) limit).now = w.nextInstant (what.alarms s) limit := rfl
        obtain ⟨s', w', polled, kept⟩ := asked (onward before) before
        have now : w'.now = w.nextInstant (what.alarms s) limit := by
          rw [← isNow, ← prompt.now s (w.jump (what.alarms s) limit), polled]
        obtain ⟨s'', w'', kept, idle', there, onward⟩ :=
          ih (instant - w'.now) (by omega) polled kept (by omega) rfl
        exact ⟨s'', w'', kept, idle', there, fun result waits =>
          .inr ⟨idle, (onward result waits).waits polled (by omega)⟩⟩
    by_cases idle : w.registry.queue = []
    · exact ofIdle start idle early isLeft
    · obtain ⟨turns, rests⟩ := (orderly start).exists_rest
      have same := w.runQueue_now turns
      have kept : P s (w.runQueue turns) := runQueue_keeps turns start turn
      obtain ⟨s', w', polled, kept⟩ := asked kept (by omega)
      have now : w'.now = w.now := by
        rw [← same, ← prompt.now s (w.runQueue turns), polled]
      have idle' := prompt.again inVain same rests polled
      obtain ⟨s'', w'', kept, idle'', there, onward⟩ := ofIdle kept idle' (by omega) (by omega)
      exact ⟨s'', w'', kept, idle'', there, fun result waits =>
        .inl ⟨idle, turns, rests, (onward result waits).waits polled (by omega)⟩⟩

end

end EventLoop

end ProgressiveHtml
