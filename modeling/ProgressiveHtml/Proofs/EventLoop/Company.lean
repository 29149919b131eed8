import ProgressiveHtml.Proofs.Related
import ProgressiveHtml.Proofs.Rendering.Abreast

namespace ProgressiveHtml

/-!
# Event loop — renderings in company

Any number of renderings share an event loop.  Each of them uses up contents of its own, and whatever the
others do meanwhile, it is where it would be if it had been alone since it began.

* `Rendering.EndsAlone` — when and how a rendering ends that is alone from some instant on;
* `Rendering.Becomes` — what a rendering becomes by being asked;
* `Member`, `Member.Stands` — a rendering in company, and where it stands;
* `Gathering`, `Company` — renderings that share an event loop, from wherever or from their beginnings;
* `Gathering.ask`, `Company.ask` — one of them goes on;
* `Gathering.pass`, `Company.pass` — time passes.
-/

open Rendering

/-- An event loop on which nothing has happened yet, at some instant. -/
def EventLoop.freshAt (now : Nat) : EventLoop := { timeline := { now } }

/-- When and how a rendering ends that is alone from some instant on. -/
def Rendering.EndsAlone (r : Rendering) (start : Nat) (left : Rendering) (time : Nat) : Prop :=
  r.EndsAt (.freshAt start) left time

/-- What a rendering becomes by being asked time and again. -/
inductive Rendering.Becomes (r : Rendering) : Rendering → Prop
  | same : Becomes r r
  | ask {r' : Rendering} (w : EventLoop) (before : Becomes r r') : Becomes r (r'.poll w).1

/-- What is over waits for nothing. -/
theorem Rendering.alarms_of_isOver {r : Rendering} (ended : r.isOver) : r.alarms = [] := by
  cases r with
  | done | failed | panicked => rfl
  | _ => cases ended

/-! ### Members -/

/-- Where a rendering stands that was begun some time ago. -/
inductive Standing where
  /-- It can go on. -/
  | ripe
  /-- It waits for a sleep to be over. -/
  | asleep
  | finished
  deriving DecidableEq

/-- A rendering in company. -/
structure Member where
  /-- The rendering as it was when it began. -/
  whole : Rendering
  /-- When it began. -/
  start : Nat
  /-- Which contents are which when it is alone. -/
  names : Pairing
  /-- What is left to do of it. -/
  left : Rendering
  standing : Standing

namespace Member

/-- A rendering that begins. -/
def fresh (now : Nat) (r : Rendering) : Member := ⟨r, now, nothingPaired, r, .ripe⟩

/-- The end of the rendering when it is alone. -/
def Ends (m : Member) : Rendering → Nat → Prop := m.whole.EndsAlone m.start

/-- A rendering in company stands where it would stand alone: there, `r'` would be left of it, and `v`
    would be the state. -/
inductive Stands (w : EventLoop) (m : Member) : Prop
  | ripe (isRipe : m.standing = .ripe) {r' : Rendering} {v : EventLoop}
      (abreast : Abreast m.names m.left r') (synced : m.names.Synced 0 w v)
      (ends : ∀ left time, m.Ends left time ↔ r'.EndsAt v left time)
  | asleep (isAsleep : m.standing = .asleep) {r' : Rendering} {v : EventLoop}
      (abreast : Abreast m.names m.left r') (synced : m.names.Synced 0 w v)
      (rests : m.left.Rests w.now) (waits : m.left.isOver = false)
      (ends : ∀ left time, m.Ends left time ↔ r'.ResumesAt v left time)
  | finished (isOver : m.standing = .finished) (ended : m.left.isOver) {left : Rendering} {time : Nat}
      (ends : m.Ends left time) (abreast : Abreast m.names m.left left) (past : time ≤ w.now)

/-- Two renderings have no content in common. -/
def Apart (m m' : Member) : Prop := ∀ ⦃a b b'⦄, m.names a b → ¬m'.names a b'

theorem Apart.symm {m m' : Member} (apart : m.Apart m') : m'.Apart m :=
  fun _ _ _ mine yours => apart yours mine

/-- The rendering is woken if one of its sleeps is over. -/
def wake (now : Nat) (m : Member) : Member :=
  if m.left.alarms.any (·.deadline ≤ now) then { m with standing := .ripe } else m

variable {w w' : EventLoop} {m : Member}

theorem wake_left (now : Nat) (m : Member) : (m.wake now).left = m.left := by
  unfold wake
  split <;> rfl

theorem wake_whole (now : Nat) (m : Member) : (m.wake now).whole = m.whole := by
  unfold wake
  split <;> rfl

theorem wake_start (now : Nat) (m : Member) : (m.wake now).start = m.start := by
  unfold wake
  split <;> rfl

theorem wake_standing (now : Nat) (m : Member) : (m.wake now).standing =
    if m.left.alarms.any (·.deadline ≤ now) then .ripe else m.standing := by
  unfold wake
  split <;> rfl

theorem wake_names (now : Nat) (m : Member) : (m.wake now).names = m.names := by
  unfold wake
  split <;> rfl

namespace Stands

/-- What others do is not noticed. -/
theorem carry (stands : m.Stands w) (now : w'.now = w.now)
    (synced : ∀ v, m.names.Synced 0 w v → m.names.Synced 0 w' v) : m.Stands w' := by
  cases stands with
  | ripe isRipe abreast agree ends => exact .ripe isRipe abreast (synced _ agree) ends
  | asleep isAsleep abreast agree rests waits ends =>
    exact .asleep isAsleep abreast (synced _ agree) (now ▸ rests) waits ends
  | finished isOver ended ends abreast past => exact .finished isOver ended ends abreast (now ▸ past)

/-- The sleeps are running that a rendering waits for. -/
theorem ahead (stands : m.Stands w) (notRipe : m.standing ≠ .ripe) :
    ∀ alarm ∈ m.left.alarms, w.now < alarm.deadline := by
  cases stands with
  | ripe isRipe => exact absurd isRipe notRipe
  | asleep _ _ _ rests => exact rests.ahead
  | finished _ ended => simp [alarms_of_isOver ended]

/-- A rendering that waits does so for a sleep that is over before it ends. -/
theorem exists_alarm (stands : m.Stands w) (isAsleep : m.standing = .asleep) {left : Rendering} {time : Nat}
    (ends : m.Ends left time) : ∃ alarm ∈ m.left.alarms, alarm.deadline ≤ time := by
  cases stands with
  | ripe isRipe | finished isRipe => simp [isAsleep] at isRipe
  | asleep _ abreast _ _ _ same =>
    obtain ⟨alarm', isRunning', -, endsThen⟩ := (same _ _).1 ends
    obtain ⟨alarm, isRunning, deadline⟩ := forall₂_mem_right abreast.alarms isRunning'
    have inTime : alarm'.deadline ≤ time := endsThen.now_le
    exact ⟨alarm, isRunning, by omega⟩

/-- A rendering that waits ends later. -/
theorem now_lt (stands : m.Stands w) (isAsleep : m.standing = .asleep) {left : Rendering} {time : Nat}
    (ends : m.Ends left time) : w.now < time := by
  obtain ⟨alarm, isRunning, inTime⟩ := stands.exists_alarm isAsleep ends
  exact Nat.lt_of_lt_of_le (stands.ahead (by simp [isAsleep]) alarm isRunning) inTime

/-- A rendering that is not over does not end in the past. -/
theorem now_le (stands : m.Stands w) (goesOn : m.standing ≠ .finished) {left : Rendering} {time : Nat}
    (ends : m.Ends left time) : w.now ≤ time := by
  cases isHow : m.standing with
  | ripe =>
    cases stands with
    | ripe _ _ synced same => exact synced.now ▸ ((same _ _).1 ends).now_le
    | asleep isAsleep | finished isAsleep => simp [isHow] at isAsleep
  | asleep => exact Nat.le_of_lt (stands.now_lt isHow ends)
  | finished => exact absurd isHow goesOn

/-- A rendering that has come to its end came to it when it does if it is alone, and in the same way. -/
theorem ended_abreast (stands : m.Stands w) (isOver : m.standing = .finished) : ∃ left time,
    m.Ends left time ∧ Abreast m.names m.left left ∧ time ≤ w.now := by
  cases stands with
  | ripe isRipe | asleep isRipe => simp [isOver] at isRipe
  | finished _ _ ends abreast past => exact ⟨_, _, ends, abreast, past⟩

theorem ended (stands : m.Stands w) (isOver : m.standing = .finished) : ∃ left time,
    m.Ends left time ∧ left.manner = m.left.manner ∧ time ≤ w.now := by
  obtain ⟨left, time, ends, abreast, past⟩ := stands.ended_abreast isOver
  exact ⟨left, time, ends, abreast.manner_eq.symm, past⟩

/-- A rendering that has been asked has come to its end if it ends alone by now. -/
theorem over_of_past (stands : m.Stands w) (asked : m.standing ≠ .ripe) {left : Rendering} {time : Nat}
    (ends : m.Ends left time) (past : time ≤ w.now) :
    m.standing = .finished ∧ Abreast m.names m.left left := by
  have isOver : m.standing = .finished := by
    cases isHow : m.standing with
    | ripe => exact absurd isHow asked
    | asleep => exact absurd (stands.now_lt isHow ends) (Nat.not_lt_of_le past)
    | finished => rfl
  obtain ⟨left', time', ends', abreast, -⟩ := stands.ended_abreast isOver
  obtain ⟨rfl, -⟩ := EndsAt.unique ends' ends
  exact ⟨isOver, abreast⟩

/-- A rendering that has just come to its end ends alone at this instant. -/
theorem ends_now (stands : m.Stands w) (isOver : m.standing = .finished)
    (recent : ∀ left time, m.Ends left time → w.now ≤ time) :
    ∃ left, m.Ends left w.now ∧ left.manner = m.left.manner := by
  obtain ⟨left, time, ends, same, past⟩ := stands.ended isOver
  obtain rfl := Nat.le_antisymm (recent _ _ ends) past
  exact ⟨left, ends, same⟩

/-- A rendering that has been asked is over or waits. -/
theorem isOver_iff (stands : m.Stands w) (asked : m.standing ≠ .ripe) :
    m.left.isOver ↔ m.standing = .finished := by
  cases stands with
  | ripe isRipe => exact absurd isRipe asked
  | asleep isAsleep _ _ _ waits => simp [isAsleep, waits]
  | finished isOver ended => simp [isOver, ended]

end Stands

end Member

/-! ### Company -/

/-- Renderings that share an event loop: each stands where it would stand alone. -/
structure Gathering (w : EventLoop) (members : List Member) : Prop where
  stands : ∀ m ∈ members, m.Stands w
  apart : members.Pairwise Member.Apart
  known : ∀ m ∈ members, ∀ ⦃a b⦄, m.names a b → a < w.cells
  numbered : ∀ cell ∈ w.used, cell < w.cells

/-- Renderings that share an event loop, on which they began. -/
structure Company (w : EventLoop) (members : List Member) : Prop extends Gathering w members where
  grown : ∀ m ∈ members, m.whole.Becomes m.left

/-- What is true of one in place of another and of all others is true of all. -/
theorem forall_mem_replaced {α : Type} {before after : List α} {a : α} {P : α → Prop} (here : P a)
    (there : ∀ other ∈ before ++ after, P other) : ∀ other ∈ before ++ a :: after, P other := by
  intro other member
  obtain early | isMine | late := by simpa only [List.mem_append, List.mem_cons] using member
  · exact there other (List.mem_append_left _ early)
  · exact isMine ▸ here
  · exact there other (List.mem_append_right _ late)

namespace Gathering

variable {w w' : EventLoop} {members before after : List Member} {m m' : Member}

/-- Something happens that does not concern contents. -/
theorem congr (gathering : Gathering w members) (now : w'.now = w.now) (cells : w'.cells = w.cells)
    (used : w'.used = w.used) : Gathering w' members where
  stands m member := (gathering.stands m member).carry now fun _ synced => synced.congr now cells used
  apart := gathering.apart
  known := cells ▸ gathering.known
  numbered := cells ▸ used ▸ gathering.numbered

/-- Some leave. -/
theorem sublist (gathering : Gathering w members) {others : List Member}
    (sublist : others.Sublist members) : Gathering w others where
  stands m member := gathering.stands m (sublist.subset member)
  apart := gathering.apart.sublist sublist
  known m member := gathering.known m (sublist.subset member)
  numbered := gathering.numbered

/-- One of them goes on to become `m'`, and numbers and uses up contents of its own. -/
theorem replace (gathering : Gathering w (before ++ m :: after))
    (grows : m.names.Grows m'.names w { w' with registry := w.registry }) (stands : m'.Stands w')
    (known : ∀ ⦃a b⦄, m'.names a b → a < w'.cells) (numbered : ∀ cell ∈ w'.used, cell < w'.cells) :
    Gathering w' (before ++ m' :: after) := by
  have others (other : Member) (member : other ∈ before ++ after) :
      other ∈ before ++ m :: after ∧ other.Apart m := by
    have apart := (List.pairwise_middle Member.Apart.symm).1 gathering.apart
    rw [List.pairwise_cons] at apart
    refine ⟨?_, (apart.1 other member).symm⟩
    obtain here | there := List.mem_append.1 member
    · exact List.mem_append_left _ here
    · exact List.mem_append_right _ (List.mem_cons_of_mem _ there)
  -- What is new belongs to nobody else.
  have apart (other : Member) (member : other ∈ before ++ after) : other.Apart m' := by
    intro a b b' yours isMine
    obtain already | isNew := grows.fresh isMine
    · exact (others other member).2 yours already
    · exact Nat.not_lt_of_le isNew (gathering.known other (others other member).1 yours)
  constructor
  case stands =>
    refine forall_mem_replaced stands fun other member => ?_
    refine (gathering.stands other (others other member).1).carry grows.now fun v synced => ?_
    exact (synced.aside grows numbered (apart other member)).congr rfl rfl rfl
  case apart =>
    refine (List.pairwise_middle Member.Apart.symm).2 (List.pairwise_cons.2 ⟨?_, ?_⟩)
    · exact fun other member => (apart other member).symm
    · exact (List.pairwise_cons.1 ((List.pairwise_middle Member.Apart.symm).1 gathering.apart)).2
  case known =>
    refine forall_mem_replaced known fun other member a b yours => ?_
    exact Nat.lt_of_lt_of_le (gathering.known other (others other member).1 yours) grows.cells
  case numbered => exact numbered

/-- One of them is asked, and the others do not notice.  What it hands in keeps pace. -/
theorem ask (gathering : Gathering w (before ++ m :: after)) :
    ∃ names standing new, standing ≠ .ripe ∧
      (m.left.poll w).2.registry.tasks = w.registry.tasks ++ new ∧
      (∀ task ∈ new, Abreast nothingPaired task.work task.work) ∧
      Gathering (m.left.poll w).2
        (before ++ { m with names, standing, left := (m.left.poll w).1 } :: after) := by
  have still := m.left.poll_now w
  have knownHere := gathering.known m (List.mem_append_right _ List.mem_cons_self)
  cases gathering.stands m (List.mem_append_right _ List.mem_cons_self) with
  | finished isOver ended ends abreast past =>
    -- What is over stays as it is.
    rw [poll_of_isOver ended]
    refine ⟨m.names, .finished, [], by simp, (List.append_nil _).symm, by simp, ?_⟩
    exact gathering.replace (.refl _ w) (.finished rfl ended ends abreast past) knownHere
      gathering.numbered
  | asleep _ abreast synced rests waits ends =>
    -- It is asked in vain, so its counterpart need not be asked.
    obtain ⟨⟨timeline, quiet, present⟩, kept⟩ := abreast.poll_again rests
    have waits' := (kept.isOver_eq.trans abreast.isOver_eq.symm).trans waits
    have rests' := m.left.rests_poll (w := w) rfl
    rw [quiet]
    refine ⟨m.names, .asleep, [], by simp, (List.append_nil _).symm, by simp, ?_⟩
    refine gathering.replace (.timeline _ w present) ?_ knownHere gathering.numbered
    have present : EventLoop.now { w with timeline } = w.now := present
    exact .asleep rfl kept (synced.timeline present rfl) (present.symm ▸ rests') waits' ends
  | ripe _ abreast synced ends =>
    -- It goes on, and its counterpart does the same alone.
    obtain ⟨names, ⟨grows, new, tasks, keepPace⟩, agree, kept⟩ := abreast.poll synced
    have rests := m.left.rests_poll still.symm
    have known : ∀ ⦃a b⦄, names a b → a < (m.left.poll w).2.cells :=
      fun _ _ mine => (agree.known mine).1
    by_cases ended : (m.left.poll w).1.isOver
    · have ended' := kept.isOver_eq ▸ ended
      have past := Nat.le_of_eq (synced.now.symm.trans still.symm)
      have isEnd := (ends _ _).2 ((endsAt_of_isOver ended').2 ⟨rfl, rfl⟩)
      refine ⟨names, .finished, new, by simp, tasks, keepPace, ?_⟩
      exact gathering.replace grows (.finished rfl ended isEnd kept past) known agree.numbered.1
    · have waits : (m.left.poll w).1.isOver = false := Bool.not_eq_true _ ▸ ended
      have waits' := kept.isOver_eq ▸ waits
      refine ⟨names, .asleep, new, by simp, tasks, keepPace, ?_⟩
      refine gathering.replace grows ?_ known agree.numbered.1
      exact .asleep rfl kept agree rests waits fun _ _ => (ends _ _).trans (endsAt_of_waiting waits')

/-- Time passes, but not beyond the end of a sleep that one of them waits for. -/
theorem pass (gathering : Gathering w members) (noneRipe : ∀ m ∈ members, m.standing ≠ .ripe)
    (later : w.now ≤ w'.now) (cells : w'.cells = w.cells) (used : w'.used = w.used)
    (first : ∀ m ∈ members, ∀ alarm ∈ m.left.alarms, w'.now ≤ alarm.deadline) :
    Gathering w' (members.map (Member.wake w'.now)) where
  stands := by
    refine List.forall_mem_map.2 fun m member => ?_
    have first := first m member
    cases gathering.stands m member with
    | ripe isRipe => exact absurd isRipe (noneRipe m member)
    | finished isOver ended ends abreast past =>
      have asIs : m.wake w'.now = m := by simp [Member.wake, alarms_of_isOver ended]
      rw [asIs]
      exact .finished isOver ended ends abreast (Nat.le_trans past later)
    | @asleep isAsleep r' v abreast synced rests waits ends =>
      have agree : m.names.Synced 0 w' (v.movedTo w'.now) := synced.pass rfl cells used
      unfold Member.wake
      split
      · -- The first of its sleeps is over, in company and alone.
        rename_i woken
        obtain ⟨alarm, isRunning, ended⟩ := List.any_eq_true.1 woken
        obtain ⟨alarm', isRunning', deadline⟩ := forall₂_mem_left abreast.alarms isRunning
        have isNow : alarm'.deadline = w'.now := by
          have notBefore := first alarm isRunning
          have notAfter : alarm.deadline ≤ w'.now := by simpa using ended
          omega
        refine .ripe rfl abreast agree fun left time => (ends left time).trans ?_
        rw [← isNow]
        refine resumesAt_iff isRunning' fun other' isOther' => ?_
        obtain ⟨other, isOther, same⟩ := forall₂_mem_right abreast.alarms isOther'
        have notBefore := first other isOther
        omega
      · rename_i asleep
        refine .asleep isAsleep abreast agree (rests.later fun alarm isRunning => ?_) waits ends
        exact Nat.lt_of_not_le fun ended =>
          asleep (List.any_eq_true.2 ⟨alarm, isRunning, by simpa using ended⟩)
  apart := List.pairwise_map.2 (gathering.apart.imp fun apart => by
    simpa only [Member.Apart, Member.wake_names] using apart)
  known := by
    refine List.forall_mem_map.2 fun m member => ?_
    rw [Member.wake_names, cells]
    exact gathering.known m member
  numbered := cells ▸ used ▸ gathering.numbered

end Gathering

namespace Company

variable {w w' : EventLoop} {members before after : List Member} {m m' : Member}

/-- Nobody is there. -/
theorem nobody (numbered : ∀ cell ∈ w.used, cell < w.cells) : Company w [] where
  stands _ none := absurd none List.not_mem_nil
  grown _ none := absurd none List.not_mem_nil
  apart := .nil
  known _ none := absurd none List.not_mem_nil
  numbered := numbered

/-- Something happens that does not concern contents. -/
theorem congr (company : Company w members) (now : w'.now = w.now) (cells : w'.cells = w.cells)
    (used : w'.used = w.used) : Company w' members where
  __ := company.toGathering.congr now cells used
  grown := company.grown

/-- Some leave. -/
theorem sublist (company : Company w members) {others : List Member}
    (sublist : others.Sublist members) : Company w others where
  __ := company.toGathering.sublist sublist
  grown m member := company.grown m (sublist.subset member)

/-- A rendering that begins stands where it begins. -/
theorem stands_fresh (numbered : ∀ cell ∈ w.used, cell < w.cells) {r : Rendering}
    (abreast : Abreast nothingPaired r r) : (Member.fresh w.now r).Stands w :=
  .ripe (v := .freshAt w.now) rfl abreast
    (.nothing rfl numbered fun _ isUsed => absurd isUsed List.not_mem_nil)
    fun _ _ => Iff.rfl

/-- Others join. -/
theorem join (company : Company w members) {now : Nat} (present : w.now = now) {new : List Rendering}
    (abreast : ∀ r ∈ new, Abreast nothingPaired r r) :
    Company w (members ++ new.map (Member.fresh now)) where
  stands m member := by
    obtain here | joining := List.mem_append.1 member
    · exact company.stands m here
    · obtain ⟨r, isNew, rfl⟩ := List.mem_map.1 joining
      exact present ▸ stands_fresh company.numbered (abreast r isNew)
  grown m member := by
    obtain here | joining := List.mem_append.1 member
    · exact company.grown m here
    · obtain ⟨r, -, rfl⟩ := List.mem_map.1 joining
      exact .same
  apart := by
    refine List.pairwise_append.2 ⟨company.apart, ?_, fun m _ m' joining => ?_⟩
    · exact List.pairwise_map.2 (List.pairwise_of_forall fun _ _ _ _ _ none => none.elim)
    · obtain ⟨r, -, rfl⟩ := List.mem_map.1 joining
      exact fun _ _ _ _ none => none
  known m member := by
    obtain here | joining := List.mem_append.1 member
    · exact company.known m here
    · obtain ⟨r, -, rfl⟩ := List.mem_map.1 joining
      exact fun _ _ none => none.elim
  numbered := company.numbered

/-- One of them is asked.  What it hands in joins the company, and the others do not notice. -/
theorem ask (company : Company w (before ++ m :: after)) :
    ∃ names standing new, standing ≠ .ripe ∧
      (m.left.poll w).2.registry.tasks = w.registry.tasks ++ new ∧
      Company (m.left.poll w).2
        (before ++ { m with names, standing, left := (m.left.poll w).1 } ::
          (after ++ new.map fun task => Member.fresh w.now task.work)) := by
  obtain ⟨names, standing, new, asked, tasks, keepPace, gathering⟩ := company.toGathering.ask
  refine ⟨names, standing, new, asked, tasks, ?_⟩
  have went : Company (m.left.poll w).2
      (before ++ { m with names, standing, left := (m.left.poll w).1 } :: after) := by
    refine { gathering with grown := forall_mem_replaced ?_ fun other member => ?_ }
    · exact .ask w (company.grown m (List.mem_append_right _ List.mem_cons_self))
    · obtain here | there := List.mem_append.1 member
      · exact company.grown other (List.mem_append_left _ here)
      · exact company.grown other (List.mem_append_right _ (List.mem_cons_of_mem _ there))
  have newcomers : ∀ r ∈ new.map (·.work), Abreast nothingPaired r r := by simpa using keepPace
  have all := went.join (m.left.poll_now w) newcomers
  simpa [List.map_map, Function.comp_def] using all

/-- Time passes, but not beyond the end of a sleep that one of them waits for. -/
theorem pass (company : Company w members) (noneRipe : ∀ m ∈ members, m.standing ≠ .ripe)
    (later : w.now ≤ w'.now) (cells : w'.cells = w.cells) (used : w'.used = w.used)
    (first : ∀ m ∈ members, ∀ alarm ∈ m.left.alarms, w'.now ≤ alarm.deadline) :
    Company w' (members.map (Member.wake w'.now)) where
  __ := company.toGathering.pass noneRipe later cells used first
  grown := by
    refine List.forall_mem_map.2 fun m member => ?_
    rw [Member.wake_whole, Member.wake_left]
    exact company.grown m member

end Company

end ProgressiveHtml
