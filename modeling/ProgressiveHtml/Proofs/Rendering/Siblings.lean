import ProgressiveHtml.Proofs.Rendering.Coming

namespace ProgressiveHtml

/-!
# Renderings — siblings take turns

Whenever a group is asked, its siblings go on in order, until one of them ends the group.  Each of them stands
where it would stand alone.

* `Rendering.NoneEnds` — siblings none of which ends the group;
* `Rendering.verdictFrom_of_ends`, `Rendering.poll_join_of_ends` — the first that ends the group decides how
  it ends;
* `Rendering.FailsInTurn` — a group fails in the turn of a sibling, and nothing happens afterwards;
* `Member.Went`, `Member.Round` — what siblings are after their turns;
* `Gathering.round` — siblings in company have a turn each.
-/

open Rendering

namespace Rendering

/-! ### How a group stands -/

/-- A group waits for the sleeps that its siblings wait for. -/
theorem mem_alarmsOfAll {parts : List Rendering} {alarm : Alarm} :
    alarm ∈ alarmsOfAll parts ↔ ∃ part ∈ parts, alarm ∈ part.alarms := by
  induction parts with
  | nil => simp [alarmsOfAll]
  | cons part rest ih => simp only [alarmsOfAll, List.mem_append, ih, List.exists_mem_cons_iff]

/-- None of these siblings ends the group; `settled` tells whether everything before them is there. -/
def NoneEnds (prompt : Bool) : (settled : Bool) → List Rendering → Prop
  | _, [] => True
  | settled, part :: rest =>
    part.endsGroup prompt settled = false ∧ NoneEnds prompt (settled && part.isDone) rest

section

variable {prompt settled : Bool} {before after parts : List Rendering} {part : Rendering}

/-- What ends a group whatever stands before it ends it when everything before is there. -/
theorem endsGroup_of_false (ends : part.endsGroup prompt false) : part.endsGroup prompt settled := by
  cases part with
  | failed error =>
    have isPrompt : prompt = true := by simpa [endsGroup] using ends
    simp [endsGroup, isPrompt]
  | _ => exact ends

theorem NoneEnds.goesOn (none : NoneEnds prompt settled (before ++ part :: after)) :
    part.endsGroup prompt (settled && before.all isDone) = false := by
  induction before generalizing settled with
  | nil => simpa using none.1
  | cons first rest ih =>
    rw [List.all_cons, ← Bool.and_assoc]
    exact ih none.2

theorem NoneEnds.mem (none : NoneEnds prompt settled parts) (member : part ∈ parts) :
    part.endsGroup prompt false = false := by
  obtain ⟨before, after, rfl⟩ := List.append_of_mem member
  by_contra ends
  have ends : part.endsGroup prompt (settled && before.all isDone) :=
    endsGroup_of_false (Bool.not_eq_false _ ▸ ends)
  rw [none.goesOn] at ends
  cases ends

/-- A group stands as those do that come after siblings that do not end it, unless everything is
    there. -/
theorem verdictFrom_append (none : NoneEnds prompt settled before)
    (unsettled : ∀ texts, verdictFrom prompt (settled && before.all isDone) after ≠ .complete texts) :
    verdictFrom prompt settled (before ++ after) =
      verdictFrom prompt (settled && before.all isDone) after := by
  induction before generalizing settled with
  | nil => rw [List.nil_append, List.all_nil, Bool.and_true]
  | cons part rest ih =>
    obtain ⟨goesOn, none⟩ := none
    rw [List.all_cons, ← Bool.and_assoc] at unsettled ⊢
    have later := ih none unsettled
    rw [List.cons_append]
    -- A sibling that waits hides the failures behind it, unless the group is prompt; one that is
    -- there does not.
    by_cases waits : part.isOver = false
    · rw [isDone_of_waits waits, Bool.and_false] at later ⊢
      rw [verdictFrom_of_waits waits]
      exact later
    · cases part with
      | done markup =>
        rw [show (done markup).isDone = true from rfl, Bool.and_true] at later unsettled ⊢
        rw [verdictFrom, later]
        split
        · rename_i texts isComplete
          exact absurd isComplete (unsettled texts)
        · rfl
      | failed error =>
        have unnoticed : (prompt || settled) = false := goesOn
        rw [show (failed error).isDone = false from rfl, Bool.and_false] at later ⊢
        rw [verdictFrom, unnoticed]
        exact later
      | panicked => cases goesOn
      | _ => exact absurd rfl waits

/-- The first sibling to end its group decides how the group stands. -/
theorem verdictFrom_of_ends (none : NoneEnds prompt settled before)
    (ends : part.endsGroup prompt (settled && before.all isDone)) :
    verdictFrom prompt settled (before ++ part :: after) = verdictFrom true true [part] := by
  have stands : verdictFrom prompt (settled && before.all isDone) (part :: after) =
      verdictFrom true true [part] := by
    cases part with
    | failed error =>
      have counts : (prompt || (settled && before.all isDone)) = true := ends
      rw [verdictFrom, if_pos counts]
      rfl
    | panicked message => rw [verdictFrom, verdictFrom]
    | _ => cases ends
  rw [verdictFrom_append none, stands]
  intro texts isComplete
  rw [stands] at isComplete
  cases part with
  | failed | panicked => cases isComplete
  | _ => cases ends

/-- Siblings of which some is not there, and none ends the group, wait. -/
theorem verdictFrom_of_noneEnds (none : NoneEnds prompt settled parts)
    (unsettled : (settled && parts.all isDone) = false) :
    verdictFrom prompt settled parts = .waiting := by
  have stands := verdictFrom_append none (show ∀ texts, verdictFrom prompt _ [] ≠ .complete texts by
    rw [unsettled]
    exact fun _ => nofun)
  rwa [List.append_nil, unsettled] at stands

/-- A group in which every sibling is there is complete. -/
theorem verdictFrom_of_allDone (prompt : Bool) (there : parts.all isDone) :
    ∃ texts, verdictFrom prompt true parts = .complete texts := by
  induction parts with
  | nil => exact ⟨[], rfl⟩
  | cons part rest ih =>
    rw [List.all_cons, Bool.and_eq_true] at there
    obtain ⟨texts, complete⟩ := ih there.2
    cases part with
    | done markup => exact ⟨markup :: texts, by rw [verdictFrom, complete]⟩
    | _ => cases there.1

variable {w w' : EventLoop} {left : List Rendering} {next : List String → Rendering}

/-- A group that is asked comes to the end of the first of its siblings that ends it. -/
theorem poll_join_of_ends
    (asked : pollAll (isPrompt parts.length) true parts w = (before ++ part :: after, w'))
    (none : NoneEnds (isPrompt parts.length) true before)
    (ends : part.endsGroup (isPrompt parts.length) (before.all isDone)) :
    (join parts next).poll w = (part, w') := by
  have size := length_pollAll (isPrompt parts.length) true parts w
  rw [asked] at size
  rw [poll, asked]
  dsimp only at size ⊢
  rw [verdict, size, verdictFrom_of_ends none ends]
  cases part with
  | failed | panicked => rfl
  | _ => cases ends

/-- A group that is asked waits if some sibling is not there and none ends it. -/
theorem poll_join_of_noneEnds (asked : pollAll (isPrompt parts.length) true parts w = (left, w'))
    (none : NoneEnds (isPrompt parts.length) true left) (unsettled : left.all isDone = false) :
    (join parts next).poll w = (join left next, w') := by
  have size := length_pollAll (isPrompt parts.length) true parts w
  rw [asked] at size
  rw [poll, asked]
  dsimp only at size ⊢
  rw [verdict, size, verdictFrom_of_noneEnds none unsettled]

/-- A group that is asked goes on to its markup if every sibling is there. -/
theorem poll_join_of_allDone (asked : pollAll (isPrompt parts.length) true parts w = (left, w'))
    (there : left.all isDone) : ∃ texts, (join parts next).poll w = (next texts).poll w' := by
  obtain ⟨texts, complete⟩ := verdictFrom_of_allDone (isPrompt left.length) there
  refine ⟨texts, ?_⟩
  rw [poll, asked]
  dsimp only
  rw [verdict, complete]

/-- A group in which a sibling does not end it fails as those behind it do. -/
theorem failed_of_cons {error : RenderError} (goesOn : part.endsGroup prompt settled = false)
    (stands : verdictFrom prompt settled (part :: parts) = .failed error) :
    verdictFrom prompt (settled && part.isDone) parts = .failed error := by
  by_cases waits : part.isOver = false
  · rw [verdictFrom_of_waits waits] at stands
    rwa [isDone_of_waits waits, Bool.and_false]
  · cases part with
    | done markup =>
      rw [show (done markup).isDone = true from rfl, Bool.and_true]
      rw [verdictFrom] at stands
      split at stands
      · cases stands
      · exact stands
    | failed =>
      have unnoticed : (prompt || settled) = false := goesOn
      rw [show (failed _).isDone = false from rfl, Bool.and_false]
      rwa [verdictFrom, unnoticed] at stands
    | panicked => cases goesOn
    | _ => exact absurd rfl waits

/-- Siblings that are asked fail in the turn of one of them: those before it have had theirs, and what
    it leaves is what all of them leave. -/
theorem exists_turn_of_failed {error : RenderError}
    (stands : verdictFrom prompt settled (pollAll prompt settled parts w).1 = .failed error) :
    ∃ before part after, parts = before ++ part :: after ∧
      part.poll (pollAll prompt settled before w).2 =
        (.failed error, (pollAll prompt settled parts w).2) := by
  induction parts generalizing settled w with
  | nil => cases settled <;> cases stands
  | cons part rest ih =>
    rw [pollAll_cons] at stands ⊢
    cases ends : (part.poll w).1.endsGroup prompt settled with
    | true =>
      -- It is this one that ends the group.
      rw [ends, if_pos rfl] at stands
      rw [if_pos rfl]
      refine ⟨[], part, rest, rfl, Prod.ext ?_ rfl⟩
      show (part.poll w).1 = .failed error
      generalize (part.poll w).1 = left at ends stands
      cases left with
      | failed =>
        have counts : (prompt || settled) = true := ends
        rw [verdictFrom, if_pos counts] at stands
        cases stands
        rfl
      | panicked =>
        rw [verdictFrom] at stands
        cases stands
      | _ => cases ends
    | false =>
      rw [ends, if_neg Bool.false_ne_true] at stands
      rw [if_neg Bool.false_ne_true]
      obtain ⟨before, one, after, rfl, turn⟩ := ih (failed_of_cons ends stands)
      refine ⟨part :: before, one, after, rfl, ?_⟩
      rwa [pollAll_cons, ends, if_neg Bool.false_ne_true]

/-- A group that is asked and fails does so in the turn of a sibling: those before it have had theirs, and
    nothing happens afterwards. -/
def FailsInTurn (parts : List Rendering) (w : EventLoop) (error : RenderError) (w' : EventLoop) : Prop :=
  ∃ before part after, parts = before ++ part :: after ∧
    part.poll (pollAll (isPrompt parts.length) true before w).2 = (.failed error, w')

/-- A group that fails when it is asked fails in the turn of a sibling. -/
theorem failsInTurn {write : List String → String} {error : RenderError}
    (fails : (join parts fun markup => done (write markup)).poll w = (.failed error, w')) :
    FailsInTurn parts w error w' := by
  rw [poll_join, verdict, length_pollAll] at fails
  split at fails
  · cases fails
  · rename_i stands
    cases fails
    exact exists_turn_of_failed stands
  · cases fails
  · cases fails

end

end Rendering

/-! ### Turns -/

/-- The same sibling, later. -/
structure Member.Later (m m' : Member) : Prop where
  whole : m'.whole = m.whole
  start : m'.start = m.start

theorem Member.Later.ends_iff {m m' : Member} (later : m.Later m') {left : Rendering} {time : Nat} :
    m'.Ends left time ↔ m.Ends left time := by
  rw [Ends, Ends, later.whole, later.start]

/-- What a sibling is after its turn. -/
structure Member.Went (m m' : Member) : Prop extends m.Later m' where
  asked : m'.standing ≠ .ripe
  /-- Nothing is left to do of what was over before. -/
  kept : m.standing = .finished → m'.left = m.left

/-- What comes of siblings that have a turn each, until one of them ends the group. -/
inductive Member.Round (prompt settled : Bool) (members left : List Member) : Prop
  /-- None of them ended it. -/
  | through (went : List.Forall₂ Member.Went members left)
      (none : NoneEnds prompt settled (left.map (·.left)))
  /-- One of them ended it, and those behind had no turn. -/
  | stops {passed behind went : List Member} {m m' : Member} (split : members = passed ++ m :: behind)
      (split' : left = went ++ m' :: behind) (before : List.Forall₂ Member.Went passed went)
      (turn : m.Went m') (none : NoneEnds prompt settled (went.map (·.left)))
      (ends : m'.left.endsGroup prompt (settled && (went.map (·.left)).all isDone))

/-- They are the same siblings as before. -/
theorem Member.Round.later {prompt settled : Bool} {members left : List Member}
    (round : Member.Round prompt settled members left) : List.Forall₂ Member.Later members left := by
  cases round with
  | through went => exact went.imp fun _ _ went => went.toLater
  | stops split split' before turn =>
    rw [split, split']
    refine List.rel_append (before.imp fun _ _ went => went.toLater) (.cons turn.toLater ?_)
    exact List.forall₂_same.2 fun _ _ => ⟨rfl, rfl⟩

namespace Gathering

variable {w : EventLoop}

/-- Siblings have a turn each, until one of them ends the group. -/
theorem round (prompt settled : Bool) {before members : List Member}
    (gathering : Gathering w (before ++ members)) :
    ∃ left, Member.Round prompt settled members left ∧
      (pollAll prompt settled (members.map (·.left)) w).1 = left.map (·.left) ∧
      Gathering (pollAll prompt settled (members.map (·.left)) w).2 (before ++ left) := by
  induction members generalizing settled before w with
  | nil => exact ⟨[], .through .nil trivial, rfl, gathering⟩
  | cons m rest ih =>
    obtain ⟨names, standing, -, asked, -, -, turn⟩ := gathering.ask
    have kept : m.standing = .finished → (m.left.poll w).1 = m.left := by
      intro isOver
      cases gathering.stands m (by simp) with
      | ripe isRipe | asleep isRipe => simp [isOver] at isRipe
      | finished _ ended => rw [poll_of_isOver ended]
    rw [List.map_cons, pollAll]
    rcases polled : m.left.poll w with ⟨part, w'⟩
    rw [polled] at turn kept
    dsimp only at turn kept ⊢
    have went : m.Went { m with names, standing, left := part } := ⟨⟨rfl, rfl⟩, asked, kept⟩
    cases ends : part.endsGroup prompt settled with
    | true =>
      refine ⟨{ m with names, standing, left := part } :: rest, ?_, rfl, turn⟩
      have split : m :: rest = [] ++ m :: rest := rfl
      exact .stops split rfl .nil went trivial (by simpa using ends)
    | false =>
      -- The others go on, and the first is one of those that have had their turn.
      have others : Gathering w' ((before ++ [{ m with names, standing, left := part }]) ++ rest) := by
        rwa [List.append_assoc, List.singleton_append]
      obtain ⟨left, round, same, gathering⟩ := ih (settled && part.isDone) others
      rw [List.append_assoc, List.singleton_append] at gathering
      refine ⟨{ m with names, standing, left := part } :: left, ?_, ?_, gathering⟩
      · cases round with
        | through wentAll none => exact .through (.cons went wentAll) ⟨ends, none⟩
        | @stops passed behind wentAll m₁ m₁' split split' wentBefore turn none endsThere =>
          have split : m :: rest = (m :: passed) ++ m₁ :: behind := congrArg (m :: ·) split
          refine .stops split (congrArg (_ :: ·) split') (.cons went wentBefore) turn ⟨ends, none⟩ ?_
          rwa [List.map_cons, List.all_cons, ← Bool.and_assoc]
      · simp only [Bool.false_eq_true, if_false, List.map_cons, same]

end Gathering

end ProgressiveHtml
