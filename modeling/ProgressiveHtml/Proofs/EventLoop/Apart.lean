import ProgressiveHtml.Proofs.EventLoop.Same
import ProgressiveHtml.Proofs.EventLoop.Waits

namespace ProgressiveHtml

/-!
# Event loop — two runs, in one of which more goes on

In the first of two runs something else goes on, with contents of its own.  Late fragments belong to one
side only: they are shared by both runs, or they are handed in by what else goes on.  Then what is the same in
both runs stays so, although time passes in smaller steps in the first one.

* `Names.Apart` — two such runs;
* `EventLoop.Parted`, `Names.Apart.start` — a state from which they may go on;
* `Names.Apart.poll`, `Names.Apart.elsewhere` — what is the same is asked, and what goes on elsewhere;
* `Names.Apart.runQueue`, `Names.Apart.runNext` — turns, in both runs or in the first one;
* `Names.Apart.jump`, `Names.Apart.pass` — time passes, in both runs or in the first one;
* `Names.Apart.sleeps` — the main task sleeps in both runs.
-/

open Rendering EventLoop

theorem EventLoop.never_poll (s : Unit) (w : EventLoop) : never.poll s w = (.pending s, w) := rfl

/-- While the main task sleeps, it can only wait. -/
theorem EventLoop.prompt_never : never.Prompt where
  now _ _ := rfl
  orderly _ _ := id
  again asked _ idle asked' := by
    cases asked'
    exact idle

/-- Two states agree about what corresponds, while in the first one something else goes on with the contents
    `own`.  Unless late fragments are `shared`, only what goes on elsewhere hands in any. -/
structure Names.Apart (shared : Bool) (N : Names) (own : Nat → Prop) (w v : EventLoop) : Prop where
  synced : N.Synced shared w v
  apart : ∀ ⦃a b⦄, N.cells a b → ¬own a
  known : ∀ cell, own cell → cell < w.cells
  orderly : w.Orderly
  alone : shared = false → v.Alone
  keep : shared = false → ∀ task ∈ w.registry.tasks, task.work.KeepsTo true own

/-- A state from which runs may go on while something else goes on with the contents `own`.  The late
    fragments on their way do not use these if they are `shared`, and otherwise only these. -/
structure EventLoop.Parted (shared : Bool) (own : Nat → Prop) (w : EventLoop) : Prop where
  orderly : w.Orderly
  numbered : ∀ cell ∈ w.used, cell < w.cells
  known : ∀ cell, own cell → cell < w.cells
  tasks : ∀ task ∈ w.registry.tasks,
    if shared then task.work.Same true (.soFar w own) task.work else task.work.KeepsTo true own

/-- The state from which a run goes on that does without the late fragments, unless they are `shared`. -/
def EventLoop.onItsOwn (shared : Bool) (w : EventLoop) : EventLoop := if shared then w else w.close

/-- With no fragment on its way, and no content that belongs elsewhere, the state is parted. -/
theorem EventLoop.Alone.parted {w : EventLoop} (alone : w.Alone) (numbered : ∀ cell ∈ w.used, cell < w.cells)
    (shared : Bool) : w.Parted shared fun _ => False where
  orderly := alone.orderly
  numbered := numbered
  known _ none := none.elim
  tasks := by
    rw [alone.tasks]
    exact nofun

/-- A state that is parted agrees with itself about what has been numbered and started so far. -/
theorem EventLoop.Parted.synced {shared : Bool} {own : Nat → Prop} {w : EventLoop}
    (parted : w.Parted shared own) : (Names.soFar w own).Synced shared w w where
  contents := {
    now := rfl
    unique := by
      rintro a _ a' _ ⟨rfl, -⟩ ⟨rfl, -⟩
      exact .rfl
    known := by
      rintro a _ ⟨rfl, less, -⟩
      exact ⟨less, less⟩
    used := by
      rintro a _ ⟨rfl, -⟩
      exact .rfl
    numbered := ⟨parted.numbered, parted.numbered⟩ }
  paced := {
    now := rfl
    order := by
      rintro a _ a' _ ⟨rfl, -⟩ ⟨rfl, -⟩
      exact .rfl
    known := by
      rintro a _ ⟨rfl, less⟩
      exact ⟨less, less⟩ }
  registry := by
    rintro rfl
    exact { next := rfl, pending := rfl, closed := rfl, ready := rfl, queue := rfl,
            tasks := List.forall₂_same.2 fun task here => ⟨rfl, parted.tasks task here⟩ }

/-- Two states are so under more names, and with more contents that belong to what goes on elsewhere. -/
def Names.ApartLater (shared : Bool) (N : Names) (own : Nat → Prop) (w v : EventLoop) : Prop :=
  ∃ N' own', N.Within N' ∧ (∀ cell, own cell → own' cell) ∧ N'.Apart shared own' w v

namespace Names.Apart

variable {shared : Bool} {N : Names} {own own' : Nat → Prop} {w w' v v' : EventLoop}

theorem later (apart : N.Apart shared own w v) : N.ApartLater shared own w v :=
  ⟨N, own, .refl N, fun _ => id, apart⟩

theorem now (apart : N.Apart shared own w v) : w.now = v.now := apart.synced.contents.now

/-- Two runs go on from a state that is parted, one of them on its own. -/
theorem start (parted : w.Parted shared own) : (soFar w own).Apart shared own w (w.onItsOwn shared) where
  synced := by
    cases shared with
    | true => exact parted.synced
    | false => exact parted.synced.aside rfl rfl rfl (Nat.le_refl _) rfl rfl rfl (Nat.le_refl _) nofun
  apart _ _ paired := paired.2.2
  known := parted.known
  orderly := parted.orderly
  alone := by
    rintro rfl
    exact ⟨rfl, rfl⟩
  keep := by
    rintro rfl
    exact parted.tasks

/-- Who has been woken where late fragments are shared has been woken in both. -/
theorem queue (apart : N.Apart shared own w v) (isShared : shared = true) :
    w.registry.queue = v.registry.queue :=
  (apart.synced.registry isShared).queue

/-- In the second run too everything is in order. -/
theorem orderlyToo (apart : N.Apart shared own w v) : v.Orderly := by
  cases shared with
  | false => exact (apart.alone rfl).orderly
  | true =>
    have same := apart.synced.registry rfl
    have slots : w.registry.tasks.map (·.slot) = v.registry.tasks.map (·.slot) :=
      List.forall₂_eq_eq_eq ▸ List.rel_map (fun _ _ both => both.slot) same.tasks
    have first {task' : FragmentTask} (here : task' ∈ v.registry.tasks) :
        ∃ task ∈ w.registry.tasks, task.Same N task' := forall₂_mem_right same.tasks here
    constructor
    case apart => exact slots ▸ apart.orderly.apart
    case numbered =>
      intro task' here
      obtain ⟨task, there, both⟩ := first here
      rw [← both.slot, ← same.next]
      exact apart.orderly.numbered task there
    case once => exact same.queue ▸ apart.orderly.once
    case known =>
      rw [← slots, ← same.queue]
      exact apart.orderly.known
    case waits =>
      intro task' here
      obtain ⟨task, there, both⟩ := first here
      rw [← both.slot, ← same.queue, ← apart.now]
      refine (apart.orderly.waits task there).imp_right fun ahead alarm' isRunning => ?_
      obtain ⟨alarm, isRunning, alarms⟩ := forall₂_mem_right both.work.alarms isRunning
      rw [← alarms.deadline]
      exact ahead alarm isRunning

/-! ### Asking -/

/-- What is the same in both runs is asked in both. -/
theorem poll (apart : N.Apart shared own w v) {r r' : Rendering} (same : r.Same shared N r') :
    ∃ N', N.Within N' ∧ N'.Apart shared own (r.poll w).2 (r'.poll v).2 ∧
      (r.poll w).1.Same shared N' (r'.poll v).1 := by
  obtain ⟨N', grows, synced, left⟩ := same.poll apart.synced
  refine ⟨N', grows.within, ⟨synced, fun a b paired isOwn => ?_, ?_, apart.orderly.poll r, ?_, ?_⟩, left⟩
  · -- What has been numbered since belongs to nothing that goes on elsewhere.
    obtain before | new := grows.fresh paired
    · exact apart.apart before isOwn
    · exact absurd (apart.known a isOwn) (Nat.not_lt.2 new)
  · exact fun cell isOwn => Nat.lt_of_lt_of_le (apart.known cell isOwn) grows.cells
  · exact fun isApart => (apart.alone isApart).congr (grows.registry isApart).2
  · intro isApart
    rw [(grows.registry isApart).1]
    exact apart.keep isApart

/-- Something goes on in the first run with contents of its own. -/
theorem elsewhere (apart : N.Apart shared own w v) (goesOn : w.Elsewhere (!shared) own own' w')
    (orderly : w'.Orderly) : N.Apart shared own' w' v := by
  obtain ⟨synced, disjoint⟩ := apart.synced.elsewhere goesOn apart.known apart.apart
  refine ⟨synced, disjoint, goesOn.known apart.known, orderly, apart.alone, ?_⟩
  rintro rfl task here
  exact (goesOn.tasks task here).elim
    (fun before => (apart.keep rfl task before).mono goesOn.within) id

/-- Something happens that no content and no fragment notices. -/
theorem unnoticed (apart : N.Apart shared own w v) (aside : w.Unnoticed w') (aside' : v.Unnoticed v')
    (sleeps : w.timeline.sleeps ≤ w'.timeline.sleeps) (sleeps' : v.timeline.sleeps ≤ v'.timeline.sleeps)
    (registry : shared = true → w'.registry.Same N v'.registry) : N.Apart shared own w' v' where
  synced := apart.synced.aside aside.now aside.cells aside.used sleeps aside'.now aside'.cells
    aside'.used sleeps' registry
  apart := apart.apart
  known := aside.cells ▸ apart.known
  orderly := apart.orderly.unnoticed aside
  alone isApart := (apart.alone isApart).unnoticed aside'
  keep isApart := aside.tasks ▸ apart.keep isApart

/-- Something is written to the journals. -/
theorem retime (apart : N.Apart shared own w v) {first second : Timeline} (now : first.now = w.now)
    (now' : second.now = v.now) (sleeps : first.sleeps = w.timeline.sleeps)
    (sleeps' : second.sleeps = v.timeline.sleeps) :
    N.Apart shared own { w with timeline := first } { v with timeline := second } :=
  apart.unnoticed (.aside now rfl rfl rfl) (.aside now' rfl rfl rfl) (Nat.le_of_eq sleeps.symm)
    (Nat.le_of_eq sleeps'.symm) apart.synced.registry

/-- The next patch is asked for in both runs. -/
theorem drain (apart : N.Apart true own w v) :
    w.drain.1 = v.drain.1 ∧ N.Apart true own w.drain.2 v.drain.2 := by
  obtain ⟨answers, synced⟩ := apart.synced.drain
  exact ⟨answers, apart.unnoticed (EventLoop.drain_unnoticed rfl) (EventLoop.drain_unnoticed rfl)
    w.sleeps_drain v.sleeps_drain synced.registry⟩

/-- Both runs give up their registries. -/
theorem close (apart : N.Apart shared own w v) : N.Apart shared own w.close v.close where
  synced := apart.synced.close
  apart := apart.apart
  known := apart.known
  orderly := .close w
  alone _ := ⟨rfl, rfl⟩
  keep _ := nofun

/-! ### Turns -/

/-- The fragment that was woken first has its turn in both runs. -/
theorem runNext_both (apart : N.Apart true own w v) : N.ApartLater true own w.runNext v.runNext := by
  obtain ⟨N', grows, synced⟩ := apart.synced.runNext
  refine ⟨N', own, grows.within, fun _ => id, synced, fun a b paired isOwn => ?_, ?_,
    apart.orderly.runNext, nofun, nofun⟩
  · obtain before | new := grows.fresh paired
    · exact apart.apart before isOwn
    · exact absurd (apart.known a isOwn) (Nat.not_lt.2 new)
  · exact fun cell isOwn => Nat.lt_of_lt_of_le (apart.known cell isOwn) grows.cells

end Names.Apart

namespace Names.ApartLater

variable {shared : Bool} {N N' : Names} {own own' : Nat → Prop} {w v : EventLoop}

theorem orderly (later : N.ApartLater shared own w v) : w.Orderly := by
  obtain ⟨_, _, _, _, apart⟩ := later
  exact apart.orderly

theorem of_within (later : N'.ApartLater shared own' w v) (within : N.Within N')
    (within' : ∀ cell, own cell → own' cell) : N.ApartLater shared own w v := by
  obtain ⟨N'', own'', more, more', apart⟩ := later
  exact ⟨N'', own'', within.trans more, fun cell isOwn => more' cell (within' cell isOwn), apart⟩

/-- All fragments that have been woken have their turns in both runs. -/
theorem runQueue (later : N.ApartLater true own w v) (turns : Nat) :
    N.ApartLater true own (w.runQueue turns) (v.runQueue turns) := by
  induction turns generalizing w v with
  | zero => exact later
  | succ turns ih =>
    obtain ⟨N', own', within, within', apart⟩ := later
    rw [EventLoop.runQueue, EventLoop.runQueue, ← apart.queue rfl]
    split
    · exact ⟨N', own', within, within', apart⟩
    · exact ih (apart.runNext_both.of_within within within')

/-- A fragment has its turn in the first run, when nobody has been woken in the second. -/
theorem runNext (later : N.ApartLater shared own w v) (idle : v.registry.queue = []) :
    N.ApartLater shared own w.runNext v := by
  obtain ⟨N', own', within, within', apart⟩ := later
  cases shared with
  | true =>
    have nobody : w.runNext = w := by
      rw [EventLoop.runNext, apart.queue rfl, idle]
    rw [nobody]
    exact ⟨N', own', within, within', apart⟩
  | false =>
    obtain ⟨own'', goesOn, -⟩ := EventLoop.Elsewhere.runNext w (apart.keep rfl)
    exact ⟨N', own'', within, fun cell isOwn => goesOn.within cell (within' cell isOwn),
      apart.elsewhere goesOn apart.orderly.runNext⟩

end Names.ApartLater

namespace Names.Apart

variable {shared : Bool} {N : Names} {own : Nat → Prop} {w v : EventLoop} {alarms alarms' : List Alarm}
  {limit limit' : Nat}

/-! ### Time passes -/

/-- Time passes up to the same instant in both runs. -/
theorem jump (apart : N.Apart shared own w (v.movedTo w.now))
    (instant : w.nextInstant alarms limit = v.nextInstant alarms' limit') :
    N.Apart shared own (w.jump alarms limit) (v.jump alarms' limit') where
  synced := by
    refine ⟨{ apart.synced.contents with now := instant }, ?_, fun isShared => ?_⟩
    · exact apart.synced.paced.later instant (Nat.le_refl _) (Nat.le_refl _)
    · have same := apart.synced.registry isShared
      refine { same with queue := ?_ }
      show w.registry.due (w.nextInstant alarms limit) = v.registry.due (v.nextInstant alarms' limit')
      rw [instant]
      exact same.due_eq apart.synced.paced _
  apart := apart.apart
  known := apart.known
  orderly := apart.orderly.jump _ _
  alone isApart := by
    obtain ⟨tasks, queue⟩ := apart.alone isApart
    refine ⟨tasks, List.eq_nil_iff_forall_not_mem.2 fun slot isDue => ?_⟩
    obtain ⟨task, here, -⟩ := Registry.mem_due_iff.1 isDue
    exact absurd (tasks ▸ here) List.not_mem_nil
  keep := apart.keep

section

variable (apart : N.Apart shared own w (v.movedTo w.now)) (past : v.now ≤ w.now)
  (early : w.now < v.nextInstant alarms' limit)
  (among : ∀ alarm' ∈ alarms', ∃ alarm ∈ alarms, alarm.deadline = alarm'.deadline)

include apart early among in
/-- Time does not pass further at once in the first run than in the second. -/
theorem nextInstant_le : w.nextInstant alarms limit ≤ v.nextInstant alarms' limit := by
  refine v.le_nextInstant_iff.2 ⟨w.nextInstant_le_limit _ _, fun alarm' isRunning ahead => ?_⟩
  -- Whatever the second run waits for, the first one waits for too.
  have beside : ∃ alarm ∈ alarms ++ w.registry.alarms, alarm.deadline = alarm'.deadline := by
    obtain mine | other := List.mem_append.1 isRunning
    · obtain ⟨alarm, here, same⟩ := among alarm' mine
      exact ⟨alarm, List.mem_append_left _ here, same⟩
    · cases shared with
      | false =>
        have none : v.registry.alarms = [] := (apart.alone rfl).alarms
        rw [none] at other
        cases other
      | true =>
        obtain ⟨alarm, here, same⟩ := forall₂_mem_right (apart.synced.registry rfl).alarms other
        exact ⟨alarm, List.mem_append_right _ here, same.deadline⟩
  obtain ⟨alarm, here, same⟩ := beside
  have later := Nat.lt_of_lt_of_le early (v.nextInstant_le limit isRunning ahead)
  rw [← same] at later ⊢
  exact w.nextInstant_le limit here later

include apart past in
/-- Time passes in the first run only, up to an instant at which the second one still waits. -/
theorem pass (idle : w.registry.queue = [])
    (before : w.nextInstant alarms limit < v.nextInstant alarms' limit) :
    N.Apart shared own (w.jump alarms limit) (v.movedTo (w.nextInstant alarms limit)) where
  synced := by
    refine ⟨{ apart.synced.contents with now := rfl }, ?_, fun isShared => ?_⟩
    · exact apart.synced.paced.later rfl (Nat.le_refl _) (Nat.le_refl _)
    · have same := apart.synced.registry isShared
      -- Shared fragments wait for the same sleeps, none of which has ended yet.
      have nobody : w.jump alarms limit = w.movedTo (w.nextInstant alarms limit) :=
        apart.orderly.jump_eq idle fun alarm isRunning ahead => by
          obtain ⟨alarm', here, both⟩ := forall₂_mem_left same.alarms isRunning
          rw [both.deadline] at ahead ⊢
          exact Nat.lt_of_lt_of_le before
            (v.nextInstant_le limit (List.mem_append_right _ here) (Nat.lt_of_le_of_lt past ahead))
      rw [nobody]
      exact same
  apart := apart.apart
  known := apart.known
  orderly := apart.orderly.jump _ _
  alone isApart := (apart.alone isApart).congr rfl
  keep := apart.keep

end

/-! ### Sleeping -/

/-- The main task sleeps in both runs. -/
theorem sleeps {s : Unit} {result : Waited Unit Empty × EventLoop}
    (waits : EventLoop.Waits never limit s v result) (apart : N.Apart shared own w v) :
    ∃ w', EventLoop.Waits never limit () w (.expired (), w') ∧ N.ApartLater shared own w' result.2 := by
  induction waits generalizing N own w with
  | ready asked | panicked asked => cases (never_poll ..).symm.trans asked
  | expired asked late =>
    cases (never_poll ..).symm.trans asked
    exact ⟨w, .expired rfl (apart.now ▸ late), apart.later⟩
  | @turns _ _ v _ _ turns asked early busy rests _ ih =>
    cases (never_poll ..).symm.trans asked
    cases shared with
    | false => exact absurd (apart.alone rfl).queue busy
    | true =>
      obtain ⟨N', own', within, within', apart'⟩ := apart.later.runQueue turns
      obtain ⟨w', onward, later⟩ := ih apart'
      refine ⟨w', .turns rfl (apart.now ▸ early) (apart.queue rfl ▸ busy) ?_ onward,
        later.of_within within within'⟩
      rw [apart'.queue rfl]
      exact rests
  | @passes _ _ v _ _ asked early idle _ ih =>
    cases (never_poll ..).symm.trans asked
    have now := apart.now
    have inTime := v.nextInstant_le_limit (never.alarms ()) limit
    have start : N.ApartLater shared own w (v.movedTo w.now) ∧ v.now ≤ w.now := by
      rw [now]
      exact ⟨apart.later, Nat.le_refl _⟩
    -- The first run gets to the same instant in smaller steps.
    obtain ⟨_, w', ⟨⟨N', own', within, within', apart'⟩, past⟩, idle', there, onward⟩ :=
      goesOn_reaches (P := fun _ w => N.ApartLater shared own w (v.movedTo w.now) ∧ v.now ≤ w.now)
        prompt_never inTime
        (fun ⟨later, _⟩ => later.orderly) (fun kept _ => ⟨(), _, rfl, kept⟩)
        (fun ⟨later, past⟩ => by
          rw [runNext_now]
          exact ⟨later.runNext idle, past⟩)
        (fun ⟨⟨N', own', within, within', apart⟩, past⟩ idle early =>
          ⟨apart.nextInstant_le early nofun, fun before =>
            ⟨⟨N', own', within, within', apart.pass past idle before⟩, Nat.le_trans past
              (Nat.le_of_lt (now_lt_nextInstant _ _ (Nat.lt_of_lt_of_le early inTime)))⟩⟩)
        (never_poll () w) start (now ▸ v.now_lt_nextInstant _ early)
    obtain ⟨w'', waits, later⟩ := ih (apart'.jump there)
    exact ⟨w'', (onward _ waits).waits rfl (now ▸ early), later.of_within within within'⟩

end Names.Apart

end ProgressiveHtml
