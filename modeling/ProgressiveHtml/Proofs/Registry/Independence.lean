import ProgressiveHtml.Proofs.Registry.Chronicle

namespace ProgressiveHtml

/-!
# Registry — fragments do not influence each other

A registry of fragments that keep to themselves is drained to its end.  Every fragment then has brought
exactly one item, the one that it brings as the only fragment of a registry, and after the same time.

* `Chronicle.Separate.completes`, `Chronicle.comes_to_end` — a registry can be drained to its end when
  each of its fragments ends on its own;
* `Diary.Ended` — a fragment was handed in once and came to one end;
* `Chronicle.independent` — a registry drained to its end, and each of its fragments alone in one;
* `Session.chronicle_perform` — the steps of a session make such runs.
-/

open Rendering

/-! ### Draining to the end -/

namespace Chronicle

variable {given : List Standalone} {h : Diary} {w : EventLoop}

namespace Separate

variable {names : Nat → Pairing}

/-- A fragment that is among the tasks was given and is on its way. -/
theorem underway_of_task (separate : Separate given h w names) {task : FragmentTask}
    (here : task ∈ w.registry.tasks) : ∃ f start, given[task.slot]? = some f ∧
      h.handedIn task.slot = [start] ∧ start ≤ w.now ∧
        f.Underway task.slot start (names task.slot) w := by
  obtain ⟨bound, incomplete⟩ := separate.reached.accounts.onItsWay here
  rw [separate.size] at bound
  obtain ⟨start, before, handedIn, ⟨-, underway⟩ | ⟨after, c, complete, -⟩⟩ :=
    separate.follows (List.getElem?_eq_getElem bound)
  · exact ⟨_, start, List.getElem?_eq_getElem bound, handedIn, before, underway⟩
  · have member : (start + after, c) ∈ h.completed task.slot := complete ▸ List.mem_singleton_self _
    obtain ⟨isComplete, mine⟩ := Diary.mem_completions member
    exact absurd mine (incomplete c isComplete)

/-- When no fragment is on its way each has come to the end to which it comes alone. -/
theorem ended_of_idle (separate : Separate given h w names) (idle : w.registry.tasks = []) {slot : Nat}
    {f : Standalone} (isGiven : given[slot]? = some f) : ∃ start after c, h.handedIn slot = [start] ∧
      h.completed slot = [(start + after, c)] ∧ f.Ends c.work after := by
  obtain ⟨start, -, handedIn, ⟨-, underway⟩ | ⟨after, c, complete, -, ends⟩⟩ :=
    separate.follows isGiven
  · obtain ⟨r, found⟩ := underway.found
    simp [Registry.task?, idle] at found
  · exact ⟨start, after, c, handedIn, complete, ends⟩

end Separate

/-- All fragments come to their ends, when each of them ends on its own in at most `bound` and all have
    been handed in by the instant `latest`. -/
theorem completes {bound latest : Nat}
    (ends : ∀ f ∈ given, ∃ left after, f.Ends left after ∧ after ≤ bound) {h : Diary} {w : EventLoop}
    (run : Chronicle given h w)
    (handedIn : ∀ slot start, h.handedIn slot = [start] → start ≤ latest) :
    ∃ h' w', Chronicle given h' w' ∧ w'.registry.tasks = [] := by
  -- Turns leave fewer fragments woken, and when none is woken time passes, but not beyond all ends.
  induction remaining : latest + bound + 1 - w.now using Nat.strong_induction_on generalizing h w with
  | _ remaining afterPass =>
    induction queue : w.registry.queue generalizing h w with
    | cons slot rest afterTurn =>
      obtain ⟨names, separate⟩ := run.separate
      obtain ⟨-, turned, now⟩ := separate.turn
      refine afterTurn run.turn (fun slot start isStart => handedIn slot start ?_) (now ▸ remaining)
        (by rw [turned, queue, List.tail_cons])
      rw [← isStart, Diary.handedIn_note]
      cases w.completed? <;> exact (List.append_nil _).symm
    | nil =>
      obtain ⟨names, separate⟩ := run.separate
      by_cases idle : w.registry.tasks = []
      · exact ⟨h, w, run, idle⟩
      · obtain ⟨task, here⟩ := List.exists_mem_of_ne_nil _ idle
        obtain ⟨f, start, isGiven, isHandedIn, -, underway⟩ := separate.underway_of_task here
        obtain ⟨left, after, isEnd, short⟩ := ends f (List.mem_of_getElem? isGiven)
        have ahead := underway.now_le isEnd
        have early := handedIn _ _ isHandedIn
        cases underway with
        | woken _ _ _ isWoken => simp [queue] at isWoken
        | @asleep r r' v found alike synced _ waits same =>
          obtain ⟨alarm', isRunning', -⟩ := (same _ _).1 isEnd
          obtain ⟨alarm, isRunning, -⟩ := forall₂_mem_right alike.alarms isRunning'
          have later := waits alarm isRunning
          have onward : w.now < (w.jump [] alarm.deadline).now := w.now_lt_nextInstant [] later
          exact afterPass _ (by omega) (run.pass queue [] (Nat.le_of_lt later)) handedIn rfl

/-- The reader asks for an item, whatever the answer. -/
theorem asks (run : Chronicle given h w) :
    Chronicle given (h.note w.now (History.reads w.drain.1.items)) w.drain.2 :=
  run.ask rfl

/-- When every fragment is complete and nothing is ready, the reader is told to stop. -/
theorem finished (run : Chronicle given h w) (idle : w.registry.tasks = [])
    (none : w.registry.ready = []) : w.drain.1 = .finished := by
  obtain ⟨names, separate⟩ := run.separate
  have pending := separate.reached.pending_eq separate.stillOpen
  rw [w.drain_registry.1, Registry.drain_finished_iff]
  refine ⟨none, ?_⟩
  rw [pending, none, idle]
  rfl

/-- When every fragment is complete, the reader gets what is ready and is told to stop. -/
theorem drains {h : Diary} {w : EventLoop} (run : Chronicle given h w)
    (idle : w.registry.tasks = []) {count : Nat} (ready : w.registry.ready.length = count) :
    ∃ h' w', Chronicle given h' w' ∧ w'.drain.1 = .finished := by
  induction count generalizing h w with
  | zero => exact ⟨h, w, run, run.finished idle (List.eq_nil_of_length_eq_zero ready)⟩
  | succ count ih =>
    have asked : w.drain = (w.drain.1, w.drain.2) := rfl
    obtain ⟨-, -, tasks⟩ := EventLoop.registry_of_drain asked
    refine ih run.asks (tasks.trans idle) ?_
    rw [w.drain_registry.2, Registry.drain]
    split
    · rename_i isReady
      simpa [isReady] using ready
    · rename_i none
      simp [none] at ready

/-- A registry can be drained to its end, whatever has happened to it, when each of its fragments ends
    on its own. -/
theorem comes_to_end (run : Chronicle given h w)
    (ends : ∀ f ∈ given, ∃ left after, f.Ends left after) :
    ∃ h' w', Chronicle given h' w' ∧ w'.drain.1 = .finished := by
  -- There are finitely many fragments, so that one instant bounds the times of all of them.
  have bounded : ∃ bound, ∀ f ∈ given, ∃ left after, f.Ends left after ∧ after ≤ bound := by
    clear run
    induction given with
    | nil => exact ⟨0, by simp⟩
    | cons f rest ih =>
      obtain ⟨bound, others⟩ := ih fun g member => ends g (List.mem_cons_of_mem _ member)
      obtain ⟨left, after, isEnd⟩ := ends f List.mem_cons_self
      refine ⟨max after bound, List.forall_mem_cons.2
        ⟨⟨left, after, isEnd, Nat.le_max_left _ _⟩, fun g member => ?_⟩⟩
      obtain ⟨left, after, isEnd, short⟩ := others g member
      exact ⟨left, after, isEnd, Nat.le_trans short (Nat.le_max_right _ _)⟩
  obtain ⟨bound, ends⟩ := bounded
  obtain ⟨names, separate⟩ := run.separate
  -- Only fragments that have been given are handed in, and each of them before the present instant.
  have handedIn : ∀ slot start, h.handedIn slot = [start] → start ≤ w.now := by
    intro slot start isHandedIn
    have given : slot < given.length := by
      rw [← separate.size]
      by_contra future
      have none := (separate.unknown (Nat.le_of_not_lt future)).1
      simp [none] at isHandedIn
    obtain ⟨start', before, same, -⟩ := separate.follows (List.getElem?_eq_getElem given)
    rw [isHandedIn] at same
    exact (List.singleton_inj.1 same) ▸ before
  obtain ⟨h', w', run, idle⟩ := completes ends run handedIn
  exact run.drains idle rfl

end Chronicle

/-! ### Together and alone -/

/-- A fragment was handed in once, and has come to one end, so much later. -/
def Diary.Ended (h : Diary) (slot after : Nat) (c : Completion) : Prop :=
  ∃ start, h.handedIn slot = [start] ∧ h.completed slot = [(start + after, c)]

namespace Chronicle

variable {given : List Standalone} {h : Diary} {w : EventLoop}

/-- Every fragment of a registry that was drained to its end has come to the end to which it comes on
    its own. -/
theorem ended (run : Chronicle given h w) (drained : w.drain.1 = .finished) {slot : Nat}
    {f : Standalone} (isGiven : given[slot]? = some f) : ∃ after c, h.Ended slot after c ∧
      f.Ends c.work after ∧ Registry.item? slot c.work = some c.item := by
  obtain ⟨names, separate⟩ := run.separate
  have idle := separate.reached.idle_of_drain (w.drain_registry.1 ▸ drained)
  obtain ⟨start, after, c, handedIn, complete, ends⟩ := separate.ended_of_idle idle isGiven
  have member : (start + after, c) ∈ h.completed slot := complete ▸ List.mem_singleton_self _
  obtain ⟨isComplete, mine⟩ := Diary.mem_completions member
  exact ⟨after, c, ⟨start, handedIn, complete⟩, ends,
    mine ▸ separate.reached.accounts.items c isComplete⟩

/-- The reader of a registry that was drained to its end has got the items of all fragments, in the
    order in which these came to their ends. -/
theorem yields_eq (run : Chronicle given h w) (drained : w.drain.1 = .finished) :
    (History.completions h.happenings).map (·.item) = History.yields h.happenings ∧
      ((History.completions h.happenings).map (·.slot)).Perm (List.range given.length) := by
  obtain ⟨names, separate⟩ := run.separate
  have asked : w.drain = (.finished, w.drain.2) := Prod.ext drained rfl
  obtain ⟨yields, once⟩ := separate.reached.settled_of_drain separate.stillOpen asked
  refine ⟨yields, ?_⟩
  rwa [separate.reached.accepted_eq separate.stillOpen, separate.reached.accounts.slots,
    separate.size] at once

/-- Fragments of one registry do not influence each other.  When it was drained to its end, every
    fragment has brought exactly one item, whether that is a patch or an error; and the reader has
    got all of them.  The item of a fragment is made of the same end as the one that it brings as the
    only fragment of a registry, and it comes to that end after the same time. -/
theorem independent (run : Chronicle given h w) (drained : w.drain.1 = .finished) :
    (History.completions h.happenings).map (·.item) = History.yields h.happenings ∧
    ((History.completions h.happenings).map (·.slot)).Perm (List.range given.length) ∧
    ∀ slot f, given[slot]? = some f → ∃ after c, h.Ended slot after c ∧
      Registry.item? slot c.work = some c.item ∧
      (∃ h' w', Chronicle [f] h' w' ∧ w'.drain.1 = .finished) ∧
      ∀ h' w', Chronicle [f] h' w' → w'.drain.1 = .finished → ∃ c', h'.Ended 0 after c' ∧
        Registry.item? 0 c.work = some c'.item ∧ History.yields h'.happenings = [c'.item] := by
  obtain ⟨yields, once⟩ := run.yields_eq drained
  refine ⟨yields, once, fun slot f isGiven => ?_⟩
  obtain ⟨after, c, ended, ends, isItem⟩ := run.ended drained isGiven
  refine ⟨after, c, ended, isItem, ?_, fun h' w' alone drained' => ?_⟩
  · -- Alone it comes to the same end, so that a registry can be drained.
    have fresh : Chronicle [] [] {} := .start rfl fun _ isUsed => absurd isUsed List.not_mem_nil
    refine (fresh.handIn f).comes_to_end fun g member => ?_
    obtain rfl : g = f := by simpa using member
    exact ⟨c.work, after, ends⟩
  · obtain ⟨after', c', ended', ends', isItem'⟩ := alone.ended drained' (show [f][0]? = some f from rfl)
    obtain ⟨same, rfl⟩ := EndsAt.unique ends ends'
    refine ⟨c', ended', same ▸ isItem', ?_⟩
    obtain ⟨yields', once'⟩ := alone.yields_eq drained'
    obtain ⟨start, -, complete⟩ := ended'
    have member : (start + after', c') ∈ h'.completed 0 := complete ▸ List.mem_singleton_self _
    obtain ⟨isComplete, -⟩ := Diary.mem_completions member
    -- There is but one completion, and this is it.
    have one : (History.completions h'.happenings).length = 1 := by
      simpa using once'.length_eq
    obtain ⟨d, only⟩ := List.length_eq_one_iff.1 one
    rw [only, List.mem_singleton] at isComplete
    rw [← yields', only, isComplete]
    rfl

/-- A value that takes its time, a value that panics, and a rendering that fails: the last two bring
    errors at once, and the first brings its patch later. -/
theorem independent_mixed : ∃ (given : List Standalone) (h : Diary) (w : EventLoop),
    Chronicle given h w ∧ w.drain.1 = .finished ∧
      (History.yields h.happenings).map (·.toOption.isSome) = [false, false, true] ∧
      ∃ c, h.Ended 0 5 c ∧ Registry.item? 0 c.work = some c.item := by
  let fragment (delays : List Nat) (panic? : Option String) (shown : Node) (apart : shown.Apart .empty) :
      Standalone :=
    { value := { pace := .ofDelays "v" delays false, panic?, result := .ok "x" }
      shown := fun _ => .node shown
      onError := none
      env := .empty
      unasked := by simp [Pace.Unasked, Pace.ofDelays, Sleep.alarm?]
      apart := apart }
  let slow := fragment [5] none (.text "late") trivial
  let panics := fragment [] (some "boom") .empty trivial
  let fails := fragment [] none (.fail (.failed "oops")) trivial
  have fresh : Chronicle [] [] {} := .start rfl fun _ isUsed => absurd isUsed List.not_mem_nil
  have handedIn := ((fresh.handIn slow).handIn panics).handIn fails
  -- Each fragment has its turn, then the first one's sleep ends and it has another turn.
  have turned := handedIn.turn.turn.turn
  have passed := turned.pass rfl [] (show _ ≤ 5 from by decide)
  obtain ⟨h, w, run, idle, unready, brought, begun, ended⟩ : ∃ h w,
      Chronicle ([] ++ [slow] ++ [panics] ++ [fails]) h w ∧ w.registry.tasks.isEmpty ∧
        w.registry.ready.isEmpty ∧
        (History.yields h.happenings).map (·.toOption.isSome) = [false, false, true] ∧
        h.handedIn 0 = [0] ∧ (h.completed 0).map (·.1) = [5] :=
    ⟨_, _, passed.turn.asks.asks.asks, by decide +kernel, by decide +kernel, by decide +kernel,
      by decide +kernel, by decide +kernel⟩
  have stops := run.finished (List.isEmpty_iff.1 idle) (List.isEmpty_iff.1 unready)
  obtain ⟨-, -, each⟩ := run.independent stops
  obtain ⟨after, c, ⟨start, handedIn, complete⟩, isItem, -⟩ := each 0 slow rfl
  obtain rfl : start = 0 := List.singleton_inj.1 (handedIn.symm.trans begun)
  obtain rfl : after = 5 := by simpa [complete] using ended
  exact ⟨_, h, w, run, stops, brought, c, ⟨0, handedIn, complete⟩, isItem⟩

end Chronicle

/-! ### Sessions -/

/-- A fragment that is handed in by its author keeps to itself. -/
structure LateFragment.Apart (f : LateFragment) : Prop where
  unasked : f.value.pace.Unasked
  apart : match f.value.result with
    | .ok text => (f.shown text).Apart f.env
    | .error error => ∀ build ∈ f.failed?, (build error).Apart f.env

/-- Such a fragment as one that keeps to itself. -/
def LateFragment.standalone (f : LateFragment) (apart : f.Apart) : Standalone where
  value := f.value
  shown := f.shown
  onError := f.failed?
  env := f.env
  unasked := apart.unasked
  apart := apart.apart

namespace Session

open EventLoop

/-- What a step hands in keeps to itself, and it does not give up the registry. -/
def Step.Apart (s : Session) : Step → Prop
  | .register fragment inherits => (s.equip fragment inherits).Apart
  | .drop => False
  | _ => True

variable {given : List Standalone} {w : EventLoop}

/-- Waiting in a run goes on with it, whatever is waited for. -/
theorem chronicle_waitRounds {σ α : Type} {what : Awaitable σ α} (turns limit rounds : Nat) {s : σ}
    (run : ∃ h, Chronicle given h w)
    (asked : ∀ s {w}, (∃ h, Chronicle given h w) → ∃ h, Chronicle given h (what.poll s w).2) :
    ∃ h, Chronicle given h (waitRounds what turns limit rounds s w).2 := by
  have left : LeavesOff what (fun _ w => ∃ h, Chronicle given h w)
      (waitRounds what turns limit rounds s w) := by
    refine waitRounds_keeps turns limit rounds run (fun {s _ _ _} run polled => ?_) ?_ ?_
    · have onward := asked s run
      rwa [polled] at onward
    · rintro _ w ⟨h, run⟩
      exact ⟨_, run.turn⟩
    · rintro s w ⟨h, run⟩ idle ahead
      exact ⟨h, run.pass idle (what.alarms s) ahead⟩
  exact left.brings (asked _) id

/-- The steps of a session whose fragments keep to themselves make a run, until the registry is given
    up. -/
theorem chronicle_perform (turns : Nat) (s : Session) (step : Step) (apart : step.Apart s)
    (run : ∃ h, Chronicle given h w) :
    ∃ more h, Chronicle (given ++ more) h (s.perform turns step w).2.2 := by
  have asks (w : EventLoop) (run : ∃ h, Chronicle given h w) : ∃ h, Chronicle given h w.drain.2 := by
    obtain ⟨h, run⟩ := run
    exact ⟨_, run.ask rfl⟩
  -- All but handing in a fragment leaves the fragments that there are.
  suffices onward : (∃ h, Chronicle given h (s.perform turns step w).2.2) ∨
      ∃ f h, Chronicle (given ++ [f]) h (s.perform turns step w).2.2 by
    obtain ⟨h, run⟩ | ⟨f, h, run⟩ := onward
    · exact ⟨[], h, by simpa using run⟩
    · exact ⟨[f], h, run⟩
  cases step with
  | register fragment inherits =>
    obtain ⟨h, run⟩ := run
    exact .inr ⟨(s.equip fragment inherits).standalone apart, _, run.handIn _⟩
  | sleep length =>
    exact .inl (chronicle_waitRounds turns _ _ run fun _ _ run => run)
  | drain | describe => exact .inl run
  | drop => exact apart.elim
  | poll =>
    rw [perform]
    split
    · exact .inl (asks w run)
    · exact .inl run
  | next within =>
    rw [perform]
    split
    · have waited : ∃ h, Chronicle given h
          (w.wait drainAwaitable turns (w.now + within.getD patience) ()).2 :=
        chronicle_waitRounds turns _ _ run fun _ w run => by
          have asked := asks w run
          rcases drained : w.drain with ⟨answer, after⟩
          rw [drained] at asked
          cases answer <;> simpa [drainAwaitable, drained] using asked
      split <;> rename_i left <;> rw [left] at waited <;> exact .inl waited
    · exact .inl run

end Session

end ProgressiveHtml
