import ProgressiveHtml.Proofs.Rendering.Siblings

namespace ProgressiveHtml

/-!
# Renderings — which failure ends a group

The siblings of a group begin together, and each goes on as if it were alone.  A small group fails when
the first of them does.  In a large group a failure waits until everything before it is there.

* `Rendering.FirstToFail`, `Rendering.FirstUnfinished` — the sibling whose failure ends a small group, or
  a large one;
* `Undecided` — siblings of which none has ended the group yet;
* `Siblings` — siblings that began together, in company;
* `Stopped.failure_decides` — a group that fails does so by the failure that decides;
* `Stopped.decided` — nothing ends a group before the failure that decides;
* `Siblings.exists_decides`, `Siblings.endsAt_of_decides` — when and how a group fails.
-/

open Rendering

namespace Rendering

/-! ### The failure that decides -/

/-- A rendering that is alone fails or panics at an instant. -/
def BreaksAlone (r : Rendering) (start time : Nat) : Prop :=
  ∃ left, r.EndsAlone start left time ∧ left.isDone = false

/-- Of siblings that begin together, `child` is the first to fail, or the first in order of those that
    fail first, and none panics before it. -/
structure FirstToFail (start : Nat) (before : List Rendering) (child : Rendering)
    (after : List Rendering) (error : RenderError) (time : Nat) : Prop where
  fails : child.EndsAlone start (.failed error) time
  later : ∀ part ∈ before, ∀ t, part.BreaksAlone start t → time < t
  notEarlier : ∀ part ∈ after, ∀ t, part.BreaksAlone start t → time ≤ t

/-- Of siblings that begin together, `child` is the first in order that does not come to its markup: it
    fails, and `time` is when it and everything before it have come to their ends.  None of those behind
    it panics before. -/
structure FirstUnfinished (start : Nat) (before : List Rendering) (child : Rendering)
    (after : List Rendering) (error : RenderError) (time : Nat) : Prop where
  fails : ∃ own ≤ time, child.EndsAlone start (.failed error) own
  there : ∀ part ∈ before, ∃ markup, ∃ t ≤ time, part.EndsAlone start (.done markup) t
  last : ∃ part ∈ before ++ [child], ∃ left, part.EndsAlone start left time
  noPanic : ∀ part ∈ after, ∀ message t, part.EndsAlone start (.panicked message) t → time ≤ t

/-- What the two have in common, `prompt` telling whether the group is small. -/
structure Decides (prompt : Bool) (start : Nat) (before : List Rendering) (child : Rendering)
    (after : List Rendering) (error : RenderError) (time : Nat) : Prop where
  fails : ∃ own ≤ time, child.EndsAlone start (.failed error) own
  later : ∀ part ∈ before, ∀ t, part.BreaksAlone start t → time < t
  behind : ∀ part ∈ after, ∀ left t, part.EndsAlone start left t → left.endsGroup prompt false → time ≤ t
  there : prompt = false → ∀ part ∈ before, ∃ markup, ∃ t ≤ time, part.EndsAlone start (.done markup) t
  last : ∃ part ∈ before ++ [child], (prompt → part = child) ∧ ∃ left, part.EndsAlone start left time

section

variable {start : Nat} {before after : List Rendering} {child : Rendering} {error : RenderError}
  {time : Nat}

theorem decides_true_iff : Decides true start before child after error time ↔
    FirstToFail start before child after error time := by
  constructor
  · intro decides
    obtain ⟨own, -, fails⟩ := decides.fails
    obtain ⟨part, -, isChild, left, ends⟩ := decides.last
    obtain rfl := isChild rfl
    obtain ⟨rfl, rfl⟩ := EndsAt.unique fails ends
    refine ⟨fails, decides.later, fun part member t breaks => ?_⟩
    obtain ⟨left, ends, broken⟩ := breaks
    exact decides.behind part member left t ends (endsGroup_of_isOver ends.isOver broken)
  · intro first
    refine ⟨⟨time, Nat.le_refl _, first.fails⟩, first.later, fun part member left t ends stops => ?_,
      nofun, child, by simp, fun _ => rfl, _, first.fails⟩
    refine first.notEarlier part member t ⟨left, ends, ?_⟩
    cases left with
    | done => cases stops
    | _ => rfl

theorem decides_false_iff : Decides false start before child after error time ↔
    FirstUnfinished start before child after error time := by
  constructor
  · intro decides
    obtain ⟨part, member, -, ends⟩ := decides.last
    exact ⟨decides.fails, decides.there rfl, ⟨part, member, ends⟩,
      fun part member message t ends => decides.behind part member _ t ends rfl⟩
  · intro first
    obtain ⟨part, member, ends⟩ := first.last
    refine ⟨first.fails, fun part member t breaks => ?_, fun part member left t ends stops => ?_,
      fun _ => first.there, part, member, nofun, ends⟩
    · -- What comes to its markup does not break.
      obtain ⟨markup, t', -, comes⟩ := first.there part member
      obtain ⟨left, ends, broken⟩ := breaks
      obtain ⟨rfl, -⟩ := EndsAt.unique comes ends
      cases broken
    · cases left with
      | panicked message => exact first.noPanic part member message t ends
      | _ => cases stops

theorem decides_iff {size : Nat} : Decides (isPrompt size) start before child after error time ↔
    if size ≤ promptLimit then FirstToFail start before child after error time
    else FirstUnfinished start before child after error time := by
  by_cases small : size ≤ promptLimit
  · rw [if_pos small, show isPrompt size = true from decide_eq_true small]
    exact decides_true_iff
  · rw [if_neg small, show isPrompt size = false from decide_eq_false small]
    exact decides_false_iff

/-- A sibling in front of all others that fails no later than the first of them is the first to fail. -/
theorem FirstToFail.here {part : Rendering} {error' : RenderError} {t : Nat}
    (first : FirstToFail start before child after error time)
    (fails : part.EndsAlone start (.failed error') t) (notLater : t ≤ time) :
    FirstToFail start [] part (before ++ child :: after) error' t := by
  refine ⟨fails, nofun, fun other member s breaks => Nat.le_trans notLater ?_⟩
  obtain early | rfl | late := by simpa only [List.mem_append, List.mem_cons] using member
  · exact Nat.le_of_lt (first.later other early s breaks)
  · obtain ⟨left, ends, -⟩ := breaks
    obtain ⟨-, rfl⟩ := EndsAt.unique first.fails ends
    exact Nat.le_refl _
  · exact first.notEarlier other late s breaks

/-- A sibling in front of all others that breaks later does not change which is the first to fail. -/
theorem FirstToFail.further {part : Rendering} (first : FirstToFail start before child after error time)
    (later : ∀ t, part.BreaksAlone start t → time < t) :
    FirstToFail start (part :: before) child after error time := by
  refine ⟨first.fails, fun other member t breaks => ?_, first.notEarlier⟩
  obtain rfl | early := List.mem_cons.1 member
  · exact later t breaks
  · exact first.later other early t breaks

/-- If none of them panics and one fails, some sibling is the first to fail. -/
theorem exists_firstToFail {parts : List Rendering}
    (calm : ∀ part ∈ parts, ∀ message t, ¬part.EndsAlone start (.panicked message) t)
    (fails : ∃ part ∈ parts, ∃ error t, part.EndsAlone start (.failed error) t) :
    ∃ error time before child after, parts = before ++ child :: after ∧
      FirstToFail start before child after error time := by
  have failed_of_breaks {part : Rendering} (member : part ∈ parts) {t : Nat}
      (breaks : part.BreaksAlone start t) : ∃ error, part.EndsAlone start (.failed error) t := by
    obtain ⟨left, ends, broken⟩ := breaks
    have ended := ends.isOver
    cases left with
    | failed error => exact ⟨error, ends⟩
    | panicked message => exact absurd ends (calm part member message t)
    | done => cases broken
    | _ => cases ended
  induction parts with
  | nil =>
    obtain ⟨_, none, -⟩ := fails
    cases none
  | cons part rest ih =>
    have inRest {other : Rendering} (member : other ∈ rest) : other ∈ part :: rest :=
      List.mem_cons_of_mem _ member
    by_cases failsThere : ∃ other ∈ rest, ∃ error t, other.EndsAlone start (.failed error) t
    · obtain ⟨error, time, before, child, after, rfl, first⟩ :=
        ih (fun other member => calm other (inRest member)) failsThere
          fun member t breaks => failed_of_breaks (inRest member) breaks
      by_cases earlier : ∃ error, ∃ t ≤ time, part.EndsAlone start (.failed error) t
      · obtain ⟨error', t, notLater, fails⟩ := earlier
        exact ⟨error', t, [], part, _, rfl, first.here fails notLater⟩
      · refine ⟨error, time, part :: before, child, after, rfl, first.further fun t breaks => ?_⟩
        obtain ⟨error', fails⟩ := failed_of_breaks List.mem_cons_self breaks
        exact Nat.lt_of_not_le fun notLater => earlier ⟨error', t, notLater, fails⟩
    · -- None but this one fails.
      obtain ⟨other, member, error, t, fails⟩ := fails
      obtain rfl | there := List.mem_cons.1 member
      · refine ⟨error, t, [], other, rest, rfl, fails, nofun, fun sibling member s breaks => ?_⟩
        obtain ⟨error, fails⟩ := failed_of_breaks (inRest member) breaks
        exact absurd ⟨sibling, member, error, s, fails⟩ failsThere
      · exact absurd ⟨other, there, error, t, fails⟩ failsThere

end

end Rendering

/-! ### Before anything is decided -/

/-- No sibling that has come to its end ends the group. -/
structure Undecided (prompt : Bool) (members : List Member) : Prop where
  single : ∀ m ∈ members, m.standing = .finished → m.left.endsGroup prompt false = false
  inOrder : ∀ before m after, members = before ++ m :: after →
    (∀ other ∈ before, other.standing = .finished ∧ other.left.isDone) → m.standing = .finished →
      m.left.isDone

namespace Undecided

variable {prompt : Bool} {members : List Member}

/-- At the beginning nobody has come to an end. -/
theorem of_ripe (ripe : ∀ m ∈ members, m.standing = .ripe) : Undecided prompt members where
  single m member isOver := by
    rw [ripe m member] at isOver
    cases isOver
  inOrder before m after split _ isOver := by
    rw [ripe m (by simp [split])] at isOver
    cases isOver

/-- Siblings of which none ended the group when it had its turn. -/
theorem of_noneEnds {w : EventLoop} (stands : ∀ m ∈ members, m.Stands w)
    (none : NoneEnds prompt true (members.map (·.left))) : Undecided prompt members where
  single m member _ := none.mem (List.mem_map_of_mem member)
  inOrder before m after split there isOver := by
    have ended := ((stands m (by simp [split])).isOver_iff (by simp [isOver])).2 isOver
    have allThere : (before.map (·.left)).all isDone := by simpa using fun m member => (there m member).2
    rw [split, List.map_append, List.map_cons] at none
    have goesOn := none.goesOn
    rw [allThere] at goesOn
    cases isWhat : m.left with
    | done => rfl
    | failed | panicked => simp [isWhat, endsGroup] at goesOn
    | _ => simp [isWhat, Rendering.isOver] at ended

/-- Nothing is decided by being woken. -/
theorem wake (undecided : Undecided prompt members) (now : Nat) :
    Undecided prompt (members.map (Member.wake now)) := by
  have still {m : Member} (isOver : (m.wake now).standing = .finished) : m.standing = .finished := by
    rw [Member.wake_standing] at isOver
    split at isOver
    · cases isOver
    · exact isOver
  constructor
  case single =>
    refine List.forall_mem_map.2 fun m member isOver => ?_
    rw [Member.wake_left]
    exact undecided.single m member (still isOver)
  case inOrder =>
    intro before m after split there isOver
    obtain ⟨before, rest, rfl, rfl, split'⟩ := List.map_eq_append_iff.1 split
    obtain ⟨m, after, rfl, rfl, rfl⟩ := List.map_eq_cons_iff.1 split'
    rw [Member.wake_left]
    refine undecided.inOrder before m after rfl (fun other member => ?_) (still isOver)
    obtain ⟨isOver, isDone⟩ := there _ (List.mem_map_of_mem member)
    rw [Member.wake_left] at isDone
    exact ⟨still isOver, isDone⟩

end Undecided

/-- Two places in a list: one is before the other, or they are the same. -/
theorem append_cons_cases {α : Type} {before before' after after' : List α} {a a' : α}
    (same : before ++ a :: after = before' ++ a' :: after') :
    a ∈ before' ∨ (before = before' ∧ a = a' ∧ after = after') ∨
      ∃ between, before = before' ++ a' :: between := by
  obtain ⟨between, rfl, rest⟩ | ⟨between, rfl, rest⟩ := List.append_eq_append_iff.1 same
  · cases between with
    | nil =>
      obtain ⟨rfl, rfl⟩ := List.cons.inj rest
      exact .inr (.inl ⟨(List.append_nil _).symm, rfl, rfl⟩)
    | cons first between =>
      obtain ⟨rfl, -⟩ := List.cons.inj rest
      exact .inl (by simp)
  · cases between with
    | nil =>
      obtain ⟨rfl, rfl⟩ := List.cons.inj rest
      exact .inr (.inl ⟨List.append_nil _, rfl, rfl⟩)
    | cons first between =>
      obtain ⟨rfl, -⟩ := List.cons.inj rest
      exact .inr (.inr ⟨between, rfl⟩)

/-! ### Siblings in company -/

/-- Siblings that began together share an event loop. -/
structure Siblings (start : Nat) (parts : List Rendering) (w : EventLoop) (members : List Member) :
    Prop extends Gathering w members where
  wholes : members.map (·.whole) = parts
  starts : ∀ m ∈ members, m.start = start

namespace Siblings

variable {prompt : Bool} {start time : Nat} {error : RenderError} {w w' : EventLoop}
  {parts before after : List Rendering} {child : Rendering} {members : List Member} {m : Member}

/-- Each of them ends when it does if it is alone. -/
theorem ends_iff (siblings : Siblings start parts w members) (member : m ∈ members) {left : Rendering} :
    m.Ends left time ↔ m.whole.EndsAlone start left time := by
  rw [Member.Ends, siblings.starts m member]

/-- The members that stand before and behind one of the siblings. -/
theorem exists_split (siblings : Siblings start (before ++ child :: after) w members) :
    ∃ ms m ms', members = ms ++ m :: ms' ∧ ms.map (·.whole) = before ∧ m.whole = child ∧
      ms'.map (·.whole) = after := by
  obtain ⟨ms, rest, rfl, isBefore, wholes⟩ := List.map_eq_append_iff.1 siblings.wholes
  obtain ⟨m, ms', rfl, isChild, isAfter⟩ := List.map_eq_cons_iff.1 wholes
  exact ⟨ms, m, ms', rfl, isBefore, isChild, isAfter⟩

/-- Siblings have a turn each, until one of them ends the group. -/
theorem round (siblings : Siblings start parts w members) (prompt : Bool) :
    ∃ left, Member.Round prompt true members left ∧
      (pollAll prompt true (members.map (·.left)) w).1 = left.map (·.left) ∧
      Siblings start parts (pollAll prompt true (members.map (·.left)) w).2 left := by
  obtain ⟨left, round, same, gathering⟩ :=
    Gathering.round prompt true (show Gathering w ([] ++ members) from siblings.toGathering)
  refine ⟨left, round, same, { gathering with wholes := ?_, starts := ?_ }⟩
  · rw [← siblings.wholes]
    exact List.forall₂_eq_eq_eq ▸ List.forall₂_map_left_iff.2 (List.forall₂_map_right_iff.2
      (round.later.flip.imp fun _ _ later => later.whole))
  · intro m' member
    obtain ⟨m, was, later⟩ := forall₂_mem_right round.later member
    exact later.start.trans (siblings.starts m was)

/-- The siblings are woken when time has passed. -/
theorem pass (siblings : Siblings start parts w members) (noneRipe : ∀ m ∈ members, m.standing ≠ .ripe)
    {now : Nat} (later : w.now ≤ now)
    (first : ∀ m ∈ members, ∀ alarm ∈ m.left.alarms, now ≤ alarm.deadline) :
    Siblings start parts (w.movedTo now) (members.map (Member.wake now)) := by
  have gathering : Gathering (w.movedTo now) (members.map (Member.wake now)) :=
    siblings.toGathering.pass noneRipe later rfl rfl first
  refine { gathering with wholes := ?_, starts := ?_ }
  · rw [← siblings.wholes, List.map_map]
    exact List.map_congr_left fun m _ => m.wake_whole now
  · exact List.forall_mem_map.2 fun m member => (m.wake_start now).trans (siblings.starts m member)

/-- A sibling that was not over before its turn and is over then ends at this instant if it is alone. -/
theorem ends_now {left : List Member} {m' : Member} (began : Siblings start parts w members)
    (siblings : Siblings start parts w' left) (present : w'.now = w.now) (was : m ∈ members)
    (goesOn : m.standing ≠ .finished) (member : m' ∈ left) (later : m.Later m')
    (isOver : m'.standing = .finished) : ∃ left, m'.whole.EndsAlone start left w'.now := by
  have recent (left : Rendering) (time : Nat) (ends : m'.Ends left time) : w'.now ≤ time :=
    present ▸ (began.stands m was).now_le goesOn (later.ends_iff.1 ends)
  obtain ⟨left, ends, -⟩ := (siblings.stands m' member).ends_now isOver recent
  exact ⟨left, (siblings.ends_iff member).1 ends⟩

end Siblings

/-! ### A sibling that ends its group -/

/-- Siblings had a turn each until `m`, which became `m'`, ended the group; those before it did not, and
    those behind it had no turn. -/
structure Stopped (prompt : Bool) (start : Nat) (parts : List Rendering) (w w' : EventLoop)
    (passed went behind : List Member) (m m' : Member) : Prop where
  began : Siblings start parts w (passed ++ m :: behind)
  siblings : Siblings start parts w' (went ++ m' :: behind)
  present : w'.now = w.now
  before : List.Forall₂ Member.Went passed went
  turn : m.Went m'
  none : NoneEnds prompt true (went.map (·.left))
  ends : m'.left.endsGroup prompt ((went.map (·.left)).all isDone)

namespace Stopped

variable {prompt : Bool} {start time : Nat} {error : RenderError} {w w' : EventLoop}
  {parts : List Rendering} {passed went behind : List Member} {m m' x : Member}

theorem asked (stopped : Stopped prompt start parts w w' passed went behind m m')
    (member : x ∈ went ++ [m']) : x.standing ≠ .ripe := by
  obtain early | here := List.mem_append.1 member
  · obtain ⟨_, -, turn⟩ := forall₂_mem_right stopped.before early
    exact turn.asked
  · rw [List.mem_singleton.1 here]
    exact stopped.turn.asked

theorem stands (stopped : Stopped prompt start parts w w' passed went behind m m')
    (member : x ∈ went ++ [m']) : x ∈ went ++ m' :: behind ∧ x.Stands w' := by
  have inside : x ∈ went ++ m' :: behind := by
    obtain early | here := List.mem_append.1 member
    · exact List.mem_append_left _ early
    · exact List.mem_append_right _ (List.mem_cons.2 (.inl (List.mem_singleton.1 here)))
  exact ⟨inside, stopped.siblings.stands x inside⟩

/-- Of those that had a turn, those are over of which nothing is left to do. -/
theorem isOver_iff (stopped : Stopped prompt start parts w w' passed went behind m m')
    (member : x ∈ went ++ [m']) : x.left.isOver ↔ x.standing = .finished :=
  (stopped.stands member).2.isOver_iff (stopped.asked member)

theorem isOver (stopped : Stopped prompt start parts w w' passed went behind m m') :
    m'.standing = .finished :=
  (stopped.isOver_iff (by simp)).1 (isOver_of_endsGroup stopped.ends).1

/-- Where everything before a sibling is there, everything before it is over. -/
theorem there (stopped : Stopped prompt start parts w w' passed went behind m m')
    (all : (went.map (·.left)).all isDone) (member : x ∈ went) :
    x.left.isDone ∧ x.standing = .finished := by
  have isDone := List.all_eq_true.1 all _ (List.mem_map_of_mem member)
  exact ⟨isDone, (stopped.isOver_iff (by simp [member])).1 (isOver_of_isDone isDone)⟩

/-- In a large group, everything is there before a sibling that ends it by failing. -/
theorem settled (stopped : Stopped prompt start parts w w' passed went behind m m')
    (isFailed : m'.left = .failed error) (large : prompt = false) : (went.map (·.left)).all isDone := by
  have ends := stopped.ends
  rw [isFailed, large] at ends
  exact ends

/-- A sibling that had its turn before breaks later. -/
theorem lt_of_breaks (stopped : Stopped prompt start parts w w' passed went behind m m')
    (isFailed : m'.left = .failed error) (member : x ∈ went) (breaks : x.whole.BreaksAlone start time) :
    w'.now < time := by
  have mine : x ∈ went ++ [m'] := by simp [member]
  obtain ⟨inside, stands⟩ := stopped.stands mine
  obtain ⟨left, ends, broken⟩ := breaks
  by_contra early
  obtain ⟨hasEnded, abreast⟩ := stands.over_of_past (stopped.asked mine)
    ((stopped.siblings.ends_iff inside).2 ends) (Nat.le_of_not_lt early)
  rw [← abreast.isDone_eq] at broken
  -- It would have ended the group in its turn.
  cases prompt with
  | false =>
    rw [(stopped.there (stopped.settled isFailed rfl) member).1] at broken
    cases broken
  | true =>
    have goesOn := stopped.none.mem (List.mem_map_of_mem member)
    rw [endsGroup_of_isOver ((stopped.isOver_iff mine).2 hasEnded) broken] at goesOn
    cases goesOn

/-- A sibling that had no turn does not end the group earlier. -/
theorem le_of_behind (stopped : Stopped prompt start parts w w' passed went behind m m')
    (undecided : Undecided prompt (passed ++ m :: behind)) (member : x ∈ behind) {left : Rendering}
    (ends : x.whole.EndsAlone start left time) (stops : left.endsGroup prompt false) : w'.now ≤ time := by
  have inside : x ∈ went ++ m' :: behind := by simp [member]
  have stands := stopped.siblings.stands x inside
  have ends := (stopped.siblings.ends_iff inside).2 ends
  by_cases hasEnded : x.standing = .finished
  · -- It would have ended the group before.
    obtain ⟨left', t', ends', abreast, -⟩ := stands.ended_abreast hasEnded
    obtain ⟨rfl, -⟩ := EndsAt.unique ends' ends
    have single := undecided.single x (by simp [member]) hasEnded
    rw [abreast.endsGroup_eq, stops] at single
    cases single
  · exact stands.now_le hasEnded ends

/-- What is there came to its markup. -/
theorem exists_markup (stopped : Stopped prompt start parts w w' passed went behind m m')
    (all : (went.map (·.left)).all isDone) (member : x ∈ went) :
    ∃ markup, ∃ t ≤ w'.now, x.whole.EndsAlone start (.done markup) t := by
  obtain ⟨isDone, hasEnded⟩ := stopped.there all member
  obtain ⟨inside, stands⟩ := stopped.stands (x := x) (by simp [member])
  obtain ⟨left, t, ends, abreast, past⟩ := stands.ended_abreast hasEnded
  obtain ⟨markup, rfl⟩ : ∃ markup, left = .done markup := by
    rw [abreast.isDone_eq] at isDone
    exact Rendering.exists_markup_of_isDone isDone
  exact ⟨markup, t, past, (stopped.siblings.ends_iff inside).1 ends⟩

/-- Of those that decide, one has come to its end just now. -/
theorem exists_last (stopped : Stopped prompt start parts w w' passed went behind m m')
    (undecided : Undecided prompt (passed ++ m :: behind)) (isFailed : m'.left = .failed error) :
    ∃ part ∈ went.map (·.whole) ++ [m'.whole], (prompt → part = m'.whole) ∧
      ∃ left, part.EndsAlone start left w'.now := by
  by_cases wasOver : m.standing = .finished
  · have same : m.left = .failed error := (stopped.turn.kept wasOver).symm.trans isFailed
    cases prompt with
    | true =>
      have single := undecided.single m (by simp) wasOver
      rw [same] at single
      cases single
    | false =>
      have all := stopped.settled isFailed rfl
      -- Not all of those before it were there.
      obtain ⟨x, was, goesOn⟩ : ∃ x ∈ passed, x.standing ≠ .finished := by
        by_contra allOver
        push Not at allOver
        have isDone := undecided.inOrder passed m behind rfl (fun x was => ?_) wasOver
        · rw [same] at isDone
          cases isDone
        · obtain ⟨x', member, turn⟩ := forall₂_mem_left stopped.before was
          exact ⟨allOver x was, turn.kept (allOver x was) ▸ (stopped.there all member).1⟩
      obtain ⟨x', member, turn⟩ := forall₂_mem_left stopped.before was
      refine ⟨x'.whole, ?_, nofun, ?_⟩
      · exact List.mem_append_left _ (List.mem_map_of_mem member)
      · exact stopped.began.ends_now stopped.siblings stopped.present (by simp [was]) goesOn
          (by simp [member]) turn.toLater (stopped.there all member).2
  · refine ⟨m'.whole, by simp, fun _ => rfl, ?_⟩
    exact stopped.began.ends_now stopped.siblings stopped.present (by simp) wasOver (by simp)
      stopped.turn.toLater stopped.isOver

/-- A group that fails does so by the failure that decides. -/
theorem failure_decides (stopped : Stopped prompt start parts w w' passed went behind m m')
    (undecided : Undecided prompt (passed ++ m :: behind)) (isFailed : m'.left = .failed error) :
    Decides prompt start (went.map (·.whole)) m'.whole (behind.map (·.whole)) error w'.now where
  fails := by
    obtain ⟨inside, stands⟩ := stopped.stands (x := m') (by simp)
    obtain ⟨left, own, fails, abreast, past⟩ := stands.ended_abreast stopped.isOver
    rw [isFailed] at abreast
    cases abreast
    exact ⟨own, past, (stopped.siblings.ends_iff inside).1 fails⟩
  later := List.forall_mem_map.2 fun _ member _ breaks => stopped.lt_of_breaks isFailed member breaks
  behind := List.forall_mem_map.2 fun _ member _ _ ends stops =>
    stopped.le_of_behind undecided member ends stops
  there large := List.forall_mem_map.2 fun _ member =>
    stopped.exists_markup (stopped.settled isFailed large) member
  last := stopped.exists_last undecided isFailed

end Stopped

/-! ### Up to the failure that decides -/

namespace Siblings

variable {prompt : Bool} {start time : Nat} {error : RenderError} {w : EventLoop}
  {parts : List Rendering} {m : Member} {ms ms' : List Member}

/-- When the sibling that decides has come to its end, it has failed. -/
theorem failed_of_finished (siblings : Siblings start parts w (ms ++ m :: ms'))
    (decides : Decides prompt start (ms.map (·.whole)) m.whole (ms'.map (·.whole)) error time)
    (isOver : m.standing = .finished) : m.left = .failed error := by
  have here : m ∈ ms ++ m :: ms' := by simp
  obtain ⟨own, -, fails⟩ := decides.fails
  obtain ⟨left, t, ends, abreast, -⟩ := (siblings.stands m here).ended_abreast isOver
  obtain ⟨rfl, -⟩ := EndsAt.unique ends ((siblings.ends_iff here).2 fails)
  generalize m.left = r at abreast
  cases abreast
  rfl

/-- A sibling before the one that decides breaks later. -/
theorem lt_of_broken (siblings : Siblings start parts w (ms ++ m :: ms'))
    (decides : Decides prompt start (ms.map (·.whole)) m.whole (ms'.map (·.whole)) error time)
    {x : Member} (member : x ∈ ms) (isOver : x.standing = .finished) (broken : x.left.isDone = false) :
    time < w.now := by
  have inside : x ∈ ms ++ m :: ms' := by simp [member]
  obtain ⟨left, t, ends, abreast, past⟩ := (siblings.stands x inside).ended_abreast isOver
  rw [abreast.isDone_eq] at broken
  have later := decides.later _ (List.mem_map_of_mem member) t
    ⟨left, (siblings.ends_iff inside).1 ends, broken⟩
  omega

/-- Once those that decide have come to their ends, the time of the decision has come. -/
theorem le_now_of_finished (siblings : Siblings start parts w (ms ++ m :: ms'))
    (decides : Decides prompt start (ms.map (·.whole)) m.whole (ms'.map (·.whole)) error time)
    (isOver : m.standing = .finished) (others : prompt = false → ∀ x ∈ ms, x.standing = .finished) :
    time ≤ w.now := by
  obtain ⟨part, member, isChild, left, ends⟩ := decides.last
  obtain ⟨x, inside, hasEnded, rfl⟩ : ∃ x ∈ ms ++ m :: ms', x.standing = .finished ∧ x.whole = part := by
    cases prompt with
    | true => exact ⟨m, by simp, isOver, (isChild rfl).symm⟩
    | false =>
      obtain before | here := List.mem_append.1 member
      · obtain ⟨x, member, same⟩ := List.mem_map.1 before
        exact ⟨x, by simp [member], others rfl x member, same⟩
      · exact ⟨m, by simp, isOver, (List.mem_singleton.1 here).symm⟩
  obtain ⟨left', t, ends', -, past⟩ := (siblings.stands x inside).ended_abreast hasEnded
  obtain ⟨-, rfl⟩ := EndsAt.unique ends' ((siblings.ends_iff inside).2 ends)
  exact past

/-- When the time of the decision has come, the sibling that decides ends the group in its turn. -/
theorem endsGroup_of_past (siblings : Siblings start parts w (ms ++ m :: ms'))
    (decides : Decides prompt start (ms.map (·.whole)) m.whole (ms'.map (·.whole)) error time)
    (asked : ∀ x ∈ ms ++ [m], x.standing ≠ .ripe) (past : time ≤ w.now) :
    m.left.endsGroup prompt ((ms.map (·.left)).all isDone) := by
  have here : m ∈ ms ++ m :: ms' := by simp
  obtain ⟨own, notLater, fails⟩ := decides.fails
  obtain ⟨isOver, -⟩ := (siblings.stands m here).over_of_past (asked m (by simp))
    ((siblings.ends_iff here).2 fails) (Nat.le_trans notLater past)
  rw [siblings.failed_of_finished decides isOver]
  cases prompt with
  | true => rfl
  | false =>
    show (ms.map (·.left)).all isDone = true
    refine List.all_eq_true.2 (List.forall_mem_map.2 fun x member => ?_)
    have inside : x ∈ ms ++ m :: ms' := by simp [member]
    obtain ⟨markup, t, notLater, comes⟩ := decides.there rfl _ (List.mem_map_of_mem member)
    obtain ⟨-, abreast⟩ := (siblings.stands x inside).over_of_past (asked x (by simp [member]))
      ((siblings.ends_iff inside).2 comes) (Nat.le_trans notLater past)
    rw [abreast.isDone_eq]
    rfl

/-- The sibling that decides does not come to its markup. -/
theorem not_isDone (siblings : Siblings start parts w (ms ++ m :: ms'))
    (decides : Decides prompt start (ms.map (·.whole)) m.whole (ms'.map (·.whole)) error time)
    (asked : m.standing ≠ .ripe) : m.left.isDone = false := by
  by_contra isDone
  have isDone : m.left.isDone := Bool.not_eq_false _ ▸ isDone
  have isOver := ((siblings.stands m (by simp)).isOver_iff asked).1 (isOver_of_isDone isDone)
  rw [siblings.failed_of_finished decides isOver] at isDone
  cases isDone

/-- While the sibling that decides does not end the group in its turn, the time of the decision is still to
    come. -/
theorem lt_of_goesOn (siblings : Siblings start parts w (ms ++ m :: ms'))
    (decides : Decides prompt start (ms.map (·.whole)) m.whole (ms'.map (·.whole)) error time)
    {rest : List Member} (asked : ∀ x ∈ ms ++ m :: rest, x.standing ≠ .ripe)
    (none : NoneEnds prompt true ((ms ++ m :: rest).map (·.left))) : w.now < time := by
  by_contra past
  have itsTurn := siblings.endsGroup_of_past decides (fun x member => asked x ?_) (Nat.le_of_not_lt past)
  · rw [List.map_append, List.map_cons] at none
    have goesOn := none.goesOn
    rw [Bool.true_and, itsTurn] at goesOn
    cases goesOn
  · obtain early | here := List.mem_append.1 member
    · exact List.mem_append_left _ early
    · exact List.mem_append_right _ (List.mem_cons.2 (.inl (List.mem_singleton.1 here)))

/-- If no sibling ends the group, some sibling is not there, and one waits for a sleep that is over before
    the time of the decision. -/
theorem exists_alarm (siblings : Siblings start parts w (ms ++ m :: ms'))
    (decides : Decides prompt start (ms.map (·.whole)) m.whole (ms'.map (·.whole)) error time)
    (asked : ∀ x ∈ ms ++ m :: ms', x.standing ≠ .ripe)
    (none : NoneEnds prompt true ((ms ++ m :: ms').map (·.left))) :
    ((ms ++ m :: ms').map (·.left)).all isDone = false ∧
      ∃ alarm ∈ alarmsOfAll ((ms ++ m :: ms').map (·.left)), alarm.deadline ≤ time := by
  have here : m ∈ ms ++ m :: ms' := by simp
  have early := siblings.lt_of_goesOn decides asked none
  constructor
  · by_contra all
    have isDone := List.all_eq_true.1 (Bool.not_eq_false _ ▸ all) _ (List.mem_map_of_mem here)
    rw [siblings.not_isDone decides (asked m here)] at isDone
    cases isDone
  · obtain ⟨part, member, -, left, ends⟩ := decides.last
    obtain ⟨x, inside, rfl⟩ : ∃ x ∈ ms ++ m :: ms', x.whole = part := by
      obtain before | isOne := List.mem_append.1 member
      · obtain ⟨x, member, same⟩ := List.mem_map.1 before
        exact ⟨x, by simp [member], same⟩
      · exact ⟨m, here, (List.mem_singleton.1 isOne).symm⟩
    have ends := (siblings.ends_iff inside).2 ends
    have stands := siblings.stands x inside
    -- The sibling that ends at that time is still asleep.
    cases isHow : x.standing with
    | ripe => exact absurd isHow (asked x inside)
    | asleep =>
      obtain ⟨alarm, isRunning, inTime⟩ := stands.exists_alarm isHow ends
      exact ⟨alarm, mem_alarmsOfAll.2 ⟨_, List.mem_map_of_mem inside, isRunning⟩, inTime⟩
    | finished =>
      obtain ⟨left', t, ends', -, past⟩ := stands.ended_abreast isHow
      obtain ⟨-, rfl⟩ := EndsAt.unique ends' ends
      omega

end Siblings

namespace Stopped

variable {prompt : Bool} {start time : Nat} {error : RenderError} {w w' : EventLoop}
  {parts : List Rendering} {passed went behind ms ms' : List Member} {m m' c : Member}

/-- No sibling behind the one that decides ends the group. -/
theorem not_behind {between : List Member}
    (stopped : Stopped prompt start parts w w' passed (ms ++ c :: between) behind m m')
    (decides : Decides prompt start (ms.map (·.whole)) c.whole
      ((between ++ m' :: behind).map (·.whole)) error time) : False := by
  have siblings : Siblings start parts w' (ms ++ c :: (between ++ m' :: behind)) := by
    simpa using stopped.siblings
  have asked (x : Member) (member : x ∈ ms ++ c :: between) : x.standing ≠ .ripe :=
    stopped.asked (List.mem_append_left _ member)
  by_cases stops : m'.left.endsGroup prompt false
  · -- It would end the group when the time of the decision has come.
    obtain ⟨inside, stands⟩ := stopped.stands (x := m') (by simp)
    obtain ⟨left, t, ends, abreast, past⟩ := stands.ended_abreast stopped.isOver
    rw [abreast.endsGroup_eq] at stops
    have notEarlier := decides.behind m'.whole (by simp) left t
      ((stopped.siblings.ends_iff inside).1 ends) stops
    have early := siblings.lt_of_goesOn decides asked stopped.none
    omega
  · -- It ends the group because everything before it is there.
    have all := settled_of_endsGroup stopped.ends stops
    have isDone := (stopped.there all (x := c) (by simp)).1
    rw [siblings.not_isDone decides (asked c (by simp))] at isDone
    cases isDone

/-- If a sibling ends the group, it is the one that decides, and its time has come. -/
theorem decided (stopped : Stopped prompt start parts w w' passed went behind m m')
    (split : went ++ m' :: behind = ms ++ c :: ms')
    (decides : Decides prompt start (ms.map (·.whole)) c.whole (ms'.map (·.whole)) error time)
    (ahead : w'.now ≤ time) : time = w'.now ∧ m'.left = .failed error := by
  have siblings : Siblings start parts w' (ms ++ c :: ms') := split ▸ stopped.siblings
  obtain before | ⟨rfl, rfl, rfl⟩ | ⟨between, rfl⟩ := append_cons_cases split
  · have early := siblings.lt_of_broken decides before stopped.isOver (isOver_of_endsGroup stopped.ends).2
    omega
  · have isFailed := siblings.failed_of_finished decides stopped.isOver
    have past := siblings.le_now_of_finished decides stopped.isOver fun large x member =>
      (stopped.there (stopped.settled isFailed large) member).2
    exact ⟨Nat.le_antisymm past ahead, isFailed⟩
  · rw [List.append_assoc, List.cons_append] at split
    obtain rfl := (List.cons.inj (List.append_cancel_left split)).2
    exact (stopped.not_behind decides).elim

end Stopped

/-! ### The group -/

namespace Siblings

variable {start time : Nat} {error : RenderError} {w : EventLoop} {parts before after : List Rendering}
  {child : Rendering} {members : List Member}

/-- What comes of a group that is asked, and where its siblings stand then. -/
inductive Polled (start : Nat) (parts : List Rendering) (w : EventLoop) (members : List Member)
    (next : List String → Rendering) : Rendering × EventLoop → Prop
  /-- A sibling ends it. -/
  | stops {passed behind went : List Member} {m m' : Member} {w' : EventLoop}
      (split : members = passed ++ m :: behind)
      (stopped : Stopped (isPrompt parts.length) start parts w w' passed went behind m m') :
      Polled start parts w members next (m'.left, w')
  /-- All siblings are there. -/
  | complete {left : List Member} {w' : EventLoop} (siblings : Siblings start parts w' left)
      (asked : ∀ m ∈ left, m.standing ≠ .ripe)
      (none : NoneEnds (isPrompt parts.length) true (left.map (·.left)))
      (there : (left.map (·.left)).all isDone) (texts : List String) :
      Polled start parts w members next ((next texts).poll w')
  /-- It waits. -/
  | waits {left : List Member} {w' : EventLoop} (siblings : Siblings start parts w' left)
      (asked : ∀ m ∈ left, m.standing ≠ .ripe)
      (none : NoneEnds (isPrompt parts.length) true (left.map (·.left))) :
      Polled start parts w members next (join (left.map (·.left)) next, w')

/-- A group is asked. -/
theorem poll (siblings : Siblings start parts w members) (next : List String → Rendering) :
    Polled start parts w members next ((join (members.map (·.left)) next).poll w) := by
  have size : (members.map (·.left)).length = parts.length := by
    rw [← siblings.wholes, List.length_map, List.length_map]
  obtain ⟨left, round, same, siblings'⟩ := siblings.round (isPrompt parts.length)
  have present := pollAll_now (isPrompt parts.length) true (members.map (·.left)) w
  rcases polled : pollAll (isPrompt parts.length) true (members.map (·.left)) w with ⟨rest, w'⟩
  rw [polled] at same siblings' present
  obtain rfl : rest = left.map (·.left) := same
  have asked : pollAll (isPrompt (members.map (·.left)).length) true (members.map (·.left)) w =
      (left.map (·.left), w') := by rw [size, polled]
  cases round with
  | stops split split' before turn none ends =>
    subst split'
    rw [List.map_append, List.map_cons] at asked
    rw [poll_join_of_ends asked (by rwa [size]) (by rw [size]; exact ends)]
    exact .stops split ⟨split ▸ siblings, siblings', present, before, turn, none, ends⟩
  | through went none =>
    have turns : ∀ m ∈ left, m.standing ≠ .ripe := by
      intro m' member
      obtain ⟨_, -, turn⟩ := forall₂_mem_right went member
      exact turn.asked
    -- None of the siblings has ended the group, so that it is complete or waits.
    by_cases there : (left.map (·.left)).all isDone
    · obtain ⟨texts, onward⟩ := @poll_join_of_allDone _ _ _ _ next asked there
      rw [onward]
      exact .complete siblings' turns none there texts
    · rw [poll_join_of_noneEnds asked (by rwa [size]) (Bool.not_eq_true _ ▸ there)]
      exact .waits siblings' turns none

/-- A group that waits is asked again when the first of its sleeps is over, which lies ahead.  Nothing is
    decided until then. -/
theorem onward (siblings : Siblings start parts w members) (asked : ∀ m ∈ members, m.standing ≠ .ripe)
    {prompt : Bool} (none : NoneEnds prompt true (members.map (·.left))) {alarm : Alarm}
    (isRunning : alarm ∈ alarmsOfAll (members.map (·.left)))
    (isFirst : ∀ other ∈ alarmsOfAll (members.map (·.left)), alarm.deadline ≤ other.deadline) :
    w.now < alarm.deadline ∧ ∃ woken, woken.map (·.left) = members.map (·.left) ∧
      Siblings start parts (w.movedTo alarm.deadline) woken ∧ Undecided prompt woken := by
  have passes : w.now < alarm.deadline := by
    obtain ⟨part, isPart, isRunning⟩ := mem_alarmsOfAll.1 isRunning
    obtain ⟨m, member, rfl⟩ := List.mem_map.1 isPart
    exact (siblings.stands m member).ahead (asked m member) alarm isRunning
  refine ⟨passes, members.map (Member.wake alarm.deadline), ?_, ?_, ?_⟩
  · rw [List.map_map]
    exact List.map_congr_left fun m _ => m.wake_left alarm.deadline
  · exact siblings.pass asked (Nat.le_of_lt passes) fun m member other isRunning =>
      isFirst other (mem_alarmsOfAll.2 ⟨_, List.mem_map_of_mem member, isRunning⟩)
  · exact (Undecided.of_noneEnds siblings.stands none).wake alarm.deadline

variable {write : List String → String}

/-- A group that fails does so when the failure that decides is due. -/
theorem exists_decides (siblings : Siblings start parts w members)
    (undecided : Undecided (isPrompt parts.length) members)
    (ends : (join (members.map (·.left)) fun markup => done (write markup)).EndsAt w (.failed error) time) :
    ∃ before child after, parts = before ++ child :: after ∧
      Decides (isPrompt parts.length) start before child after error time := by
  generalize group : join (members.map (·.left)) _ = r, isFailed : failed error = left at ends
  -- By induction on the instants at which the group is asked.
  induction ends generalizing members with
  | @atOnce r w ended =>
    subst group
    have polled := siblings.poll fun markup => done (write markup)
    generalize (join _ _).poll w = result at polled isFailed
    cases polled with
    | @stops passed behind went m m' w' split stopped =>
      subst split
      refine ⟨went.map (·.whole), m'.whole, behind.map (·.whole), ?_, ?_⟩
      · rw [← stopped.siblings.wholes, List.map_append, List.map_cons]
      · rw [← stopped.present]
        exact stopped.failure_decides undecided isFailed.symm
    | complete | waits => cases isFailed
  | @later r left w time alarm waits isRunning first rest ih =>
    subst group
    have polled := siblings.poll fun markup => done (write markup)
    generalize (join _ _).poll w = result at polled waits isRunning first rest ih
    cases polled with
    | stops _ stopped =>
      rw [(isOver_of_endsGroup stopped.ends).1] at waits
      cases waits
    | complete => cases waits
    | waits siblings' asked none =>
      obtain ⟨-, woken, same, siblings', undecided⟩ := siblings'.onward asked none isRunning first
      exact ih siblings' undecided (congrArg (join · _) same) isFailed

/-- The failure that decides ends the group when it is due. -/
theorem endsAt_of_decides (siblings : Siblings start (before ++ child :: after) w members)
    (decides : Decides (isPrompt (before ++ child :: after).length) start before child after error time)
    (ahead : w.now ≤ time) :
    (join (members.map (·.left)) fun markup => done (write markup)).EndsAt w (.failed error) time := by
  -- By induction on the time that is left until then.
  induction left : time - w.now using Nat.strong_induction_on generalizing w members with
  | h rest ih =>
    subst left
    have polled := siblings.poll fun markup => done (write markup)
    have present := poll_now (join (members.map (·.left)) fun markup => done (write markup)) w
    rcases asked : (join (members.map (·.left)) fun markup => done (write markup)).poll w with ⟨r, w'⟩
    rw [asked] at polled present
    dsimp only at present
    cases polled with
    | stops split stopped =>
      obtain ⟨ms, m, ms', same, rfl, rfl, rfl⟩ := stopped.siblings.exists_split
      obtain ⟨rfl, isFailed⟩ := stopped.decided same decides (by omega)
      rw [endsAt_of_isOver (by rw [asked]; exact (isOver_of_endsGroup stopped.ends).1), asked]
      exact ⟨isFailed.symm, present⟩
    | complete siblings' turns none there texts =>
      -- The sibling that decides is not there.
      obtain ⟨ms, m, ms', rfl, rfl, rfl, rfl⟩ := siblings'.exists_split
      rw [(siblings'.exists_alarm decides turns none).1] at there
      cases there
    | waits siblings' turns none =>
      obtain ⟨ms, m, ms', rfl, rfl, rfl, rfl⟩ := siblings'.exists_split
      obtain ⟨-, alarm, isRunning, inTime⟩ := siblings'.exists_alarm decides turns none
      obtain ⟨first, isRunning', isFirst⟩ := exists_first_alarm isRunning
      have inTime : first.deadline ≤ time := Nat.le_trans (isFirst alarm isRunning) inTime
      obtain ⟨passes, woken, same, onward, -⟩ := siblings'.onward turns none isRunning' isFirst
      rw [endsAt_of_waiting (by rw [asked]; rfl), asked, resumesAt_iff (r := join _ _) isRunning' isFirst]
      have later := ih (time - first.deadline) (by omega) onward inTime rfl
      rwa [same] at later

end Siblings

end ProgressiveHtml
