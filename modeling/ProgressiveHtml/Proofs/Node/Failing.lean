import ProgressiveHtml.Proofs.Node.InPlace
import ProgressiveHtml.Proofs.Node.Pace
import ProgressiveHtml.Proofs.Rendering.FailFast

namespace ProgressiveHtml

/-!
# Nodes — when a group of siblings fails

Siblings are rendered side by side, and each goes on as if it were alone.  The failure of one of them ends
its group: at once if there are at most 30 of them, and otherwise when everything before it is there.  A
large group whose first sibling never settles does not fail at all.

* `Node.renderedAlone` — the siblings of a group, each for itself;
* `Node.members` — the same in the company of each other;
* `Node.endsAlone_failed_iff` — when and with which error a group fails on its own;
* `Node.runWithin_fails` — what the main task gets of it;
* `Node.siblings_fail` — how groups fail, of whatever size;
* `Node.unnoticed_failure` — a failure in a large group that goes unnoticed.
-/

open Rendering

/-- The siblings of a group, each for itself. -/
def Node.renderedAlone (children : List Node) (env : Environment) : List Rendering :=
  children.map fun child => (Built.node child).rendering env

/-- The siblings of a group whose contents are numbered from `first`, as renderings in company.  Alone,
    the contents of each would be numbered from 0. -/
def Node.members (env : Environment) (start : Nat) : List Node → (first : Nat) → List Member
  | [], _ => []
  | child :: rest, first =>
    { whole := (Built.node child).rendering env
      start
      names := nothingPaired.extend first 0 child.cells
      left := child.rendering env first
      standing := .ripe } :: Node.members env start rest (first + child.cells)

namespace Node

variable {env : Environment} {start : Nat} {w : EventLoop}

theorem members_left (children : List Node) (first : Nat) :
    (members env start children first).map (·.left) = renderings children env first := by
  induction children generalizing first with
  | nil => rfl
  | cons child rest ih => exact congrArg (_ :: ·) (ih _)

theorem members_whole (children : List Node) (first : Nat) :
    (members env start children first).map (·.whole) = renderedAlone children env := by
  induction children generalizing first with
  | nil => rfl
  | cons child rest ih => exact congrArg (_ :: ·) (ih _)

/-- Contents are numbered one after the other. -/
theorem names_of_members {children : List Node} {first : Nat} {m : Member}
    (member : m ∈ members env start children first) {a b : Nat} (mine : m.names a b) :
    first ≤ a ∧ a < first + cellsOfAll children := by
  induction children generalizing first with
  | nil => cases member
  | cons child rest ih =>
    rw [cellsOfAll]
    obtain rfl | later := List.mem_cons.1 member
    · obtain none | ⟨k, less, rfl, -⟩ := mine
      · exact none.elim
      · omega
    · have behind := ih later
      omega

/-- A tree with contents of its own goes on as if it were alone. -/
theorem stands_member (child : Node) (first : Nat) (now : w.now = start) (unused : w.used = [])
    (numbered : first + child.cells ≤ w.cells) :
    Member.Stands w
      { whole := (Built.node child).rendering env, start, names := nothingPaired.extend first 0 child.cells,
        left := child.rendering env first, standing := .ripe } := by
  have paired (k : Nat) (less : k < child.cells) :
      nothingPaired.extend first 0 child.cells (first + k) (0 + k) := .inr ⟨k, less, rfl, rfl⟩
  -- Alone, the tree has the contents from zero on, which correspond to its own.
  refine .ripe rfl (v := { EventLoop.freshAt start with cells := child.cells })
    (child.abreast env paired) ?_ fun left time => endsAt_congr ?_ rfl
  · constructor
    case now => exact now
    case unique =>
      rintro a b a' b' (none | ⟨k, _, rfl, rfl⟩) (none' | ⟨k', _, rfl, rfl⟩)
      · exact none.elim
      · exact none.elim
      · exact none'.elim
      · omega
    case known =>
      rintro a b (none | ⟨k, less, rfl, rfl⟩)
      · exact none.elim
      · show first + k < w.cells ∧ 0 + k < child.cells
        omega
    case used =>
      intro a b _
      rw [unused]
      exact iff_of_false List.not_mem_nil List.not_mem_nil
    case numbered =>
      rw [unused]
      exact ⟨nofun, nofun⟩
  · show (child.rendering env 0).poll { EventLoop.freshAt start with cells := 0 + child.cells } = _
    rw [Nat.zero_add]

/-- The siblings of a group begin together. -/
theorem siblings_members (children : List Node) (first : Nat) (now : w.now = start) (unused : w.used = [])
    (numbered : first + cellsOfAll children ≤ w.cells) :
    Siblings start (renderedAlone children env) w (members env start children first) := by
  constructor
  case wholes => exact members_whole children first
  case starts =>
    induction children generalizing first with
    | nil => nofun
    | cons child rest ih =>
      refine List.forall_mem_cons.2 ⟨rfl, ih _ ?_⟩
      rwa [Nat.add_assoc]
  case toGathering =>
    constructor
    case stands =>
      induction children generalizing first with
      | nil => nofun
      | cons child rest ih =>
        rw [cellsOfAll, ← Nat.add_assoc] at numbered
        exact List.forall_mem_cons.2 ⟨stands_member child first now unused (by omega), ih _ numbered⟩
    case apart =>
      induction children generalizing first with
      | nil => exact .nil
      | cons child rest ih =>
        rw [cellsOfAll, ← Nat.add_assoc] at numbered
        refine .cons (fun m later a b b' mine yours => ?_) (ih _ numbered)
        -- The contents of the others are numbered behind those of the first.
        have behind := names_of_members later yours
        obtain none | ⟨k, less, rfl, -⟩ := mine
        · exact none.elim
        · omega
    case known =>
      intro m member a b mine
      have inside := names_of_members member mine
      omega
    case numbered =>
      rw [unused]
      nofun

theorem ripe_of_members {children : List Node} {first : Nat} :
    ∀ m ∈ members env start children first, m.standing = .ripe := by
  induction children generalizing first with
  | nil => nofun
  | cons child rest ih => exact List.forall_mem_cons.2 ⟨rfl, ih⟩

/-- A group of siblings is rendered side by side. -/
theorem rendering_of_siblings {node : Node} {children : List Node} (inside : node.siblings? = some children) :
    node.cells = cellsOfAll children ∧ ∀ env, ∃ write : List String → String, ∀ first,
      node.rendering env first = join (renderings children env first) fun markup => done (write markup) := by
  cases node with
  | element | group | head =>
    obtain rfl := Option.some.inj inside
    exact ⟨rfl, fun env => ⟨_, fun first => rfl⟩⟩
  | _ => cases inside

/-- A group ends as its siblings do in the company of each other. -/
theorem endsAlone_iff_join {node : Node} {children : List Node} {write : List String → String}
    (cells : node.cells = cellsOfAll children)
    (same : ∀ first, node.rendering env first =
      join (renderings children env first) fun markup => done (write markup))
    {left : Rendering} {time : Nat} :
    ((Built.node node).rendering env).EndsAlone start left time ↔
      (join ((members env start children 0).map (·.left)) fun markup => done (write markup)).EndsAt
        { EventLoop.freshAt start with cells := cellsOfAll children } left time := by
  refine endsAt_congr ?_ rfl
  show (node.rendering env 0).poll { EventLoop.freshAt start with cells := 0 + node.cells } = _
  rw [same, members_left, cells, Nat.zero_add]

/-- When a group fails: a small one with the first of its siblings, a large one when everything before
    the failure is there. -/
theorem endsAlone_failed_iff {node : Node} {children : List Node} (inside : node.siblings? = some children)
    (error : RenderError) (time : Nat) :
    ((Built.node node).rendering env).EndsAlone start (.failed error) time ↔
      ∃ before child after, renderedAlone children env = before ++ child :: after ∧
        if children.length ≤ promptLimit then FirstToFail start before child after error time
        else FirstUnfinished start before child after error time := by
  obtain ⟨cells, render⟩ := rendering_of_siblings inside
  obtain ⟨write, same⟩ := render env
  have size : (renderedAlone children env).length = children.length := List.length_map _
  have siblings : Siblings start (renderedAlone children env)
      { EventLoop.freshAt start with cells := cellsOfAll children } (members env start children 0) :=
    siblings_members children 0 rfl rfl (Nat.le_of_eq (Nat.zero_add _))
  rw [endsAlone_iff_join cells same]
  constructor
  · intro ends
    obtain ⟨before, child, after, split, decides⟩ :=
      siblings.exists_decides (.of_ripe ripe_of_members) ends
    rw [size, decides_iff] at decides
    exact ⟨before, child, after, split, decides⟩
  · rintro ⟨before, child, after, split, rule⟩
    rw [← size, ← decides_iff, split] at rule
    obtain ⟨part, -, -, left, ends⟩ := rule.last
    exact (split ▸ siblings).endsAt_of_decides rule ends.now_le

end Node

/-! ### For the main task -/

/-- With nothing else to wait for, time passes until the first sleep is over that a rendering waits for,
    and not beyond its end. -/
theorem Gathering.jump {w : EventLoop} {m : Member} {left : Rendering} {time limit : Nat}
    (gathering : Gathering w [m]) (isAsleep : m.standing = .asleep) (alone : w.Alone)
    (ends : m.Ends left time) (inTime : time ≤ limit) :
    w.now < (w.jump m.left.alarms limit).now ∧ (w.jump m.left.alarms limit).now ≤ time ∧
      (w.jump m.left.alarms limit).Alone ∧ ∃ woken : Member, m.Later woken ∧ woken.left = m.left ∧
        Gathering (w.jump m.left.alarms limit) [woken] := by
  have stands := gathering.stands m List.mem_cons_self
  have passes := w.now_lt_nextInstant m.left.alarms
    (Nat.lt_of_lt_of_le (stands.now_lt isAsleep ends) inTime)
  have first (alarm : Alarm) (isRunning : alarm ∈ m.left.alarms) :
      w.nextInstant m.left.alarms limit ≤ alarm.deadline :=
    w.nextInstant_le limit (List.mem_append_left _ isRunning)
      (stands.ahead (by simp [isAsleep]) alarm isRunning)
  obtain ⟨alarm, isRunning, notLater⟩ := stands.exists_alarm isAsleep ends
  rw [alone.jump]
  refine ⟨passes, Nat.le_trans (first alarm isRunning) notLater, ⟨alone.tasks, alone.queue⟩,
    m.wake (w.nextInstant m.left.alarms limit), ⟨m.wake_whole _, m.wake_start _⟩, m.wake_left _, ?_⟩
  exact gathering.pass (List.forall_mem_singleton.2 (by simp [isAsleep])) (Nat.le_of_lt passes) rfl rfl
    (List.forall_mem_singleton.2 first)

/-- With nothing else to wait for, the main task gets the error of a silent rendering when the rendering
    fails if it is alone. -/
theorem EventLoop.waitRounds_fails (turns : Nat) {time limit rounds : Nat} {error : RenderError}
    {w : EventLoop} {m : Member} (inTime : time ≤ limit) (enough : time < rounds + w.now)
    (gathering : Gathering w [m]) (silent : m.left.Silent) (alone : w.Alone)
    (fails : m.Ends (.failed error) time) (ahead : w.now ≤ time) :
    ∃ after, waitRounds Rendering.awaitable turns limit rounds m.left w =
      (.ready (.error error) (.failed error), after) ∧ after.now = time := by
  induction rounds generalizing w m with
  | zero => omega
  | succ rounds ih =>
    obtain ⟨names, standing, -, asked, -, -, gathering⟩ :=
      (show Gathering w ([] ++ m :: []) from gathering).ask
    have stands := gathering.stands _ List.mem_cons_self
    have present := m.left.poll_now w
    obtain ⟨same, silent⟩ := silent.poll w
    rcases polled : m.left.poll w with ⟨left, w'⟩
    rw [polled] at gathering stands present same silent
    dsimp only [List.nil_append] at gathering stands present same silent
    have alone := alone.congr same
    cases standing with
    | ripe => exact absurd rfl asked
    | finished =>
      -- It has failed, and not before its time.
      obtain ⟨left', t, ends, abreast, past⟩ := stands.ended_abreast rfl
      obtain ⟨rfl, rfl⟩ := EndsAt.unique fails ends
      obtain rfl : left = .failed error := by
        change Abreast names left (.failed error) at abreast
        cases abreast
        rfl
      refine ⟨w', ?_, Nat.le_antisymm (present ▸ ahead) past⟩
      rw [waitRounds]
      simp only [Rendering.awaitable, polled]
    | asleep =>
      have waits : left.isOver = false := by
        have isOver := stands.isOver_iff asked
        simpa using isOver
      have early : w'.now < limit := Nat.lt_of_lt_of_le (stands.now_lt rfl fails) inTime
      rw [waitRounds_onward (awaitable_poll_of_waits polled waits) alone early]
      obtain ⟨passes, notLater, alone, woken, later, same, gathering⟩ :=
        Gathering.jump gathering rfl alone fails inTime
      have onward := ih (by omega) gathering (same ▸ silent) alone (later.ends_iff.2 fails) notLater
      rwa [same] at onward

namespace Node

variable {env : Environment} {w : EventLoop}

/-- Where nothing can be deferred, the main task gets the error of a tree when the tree fails on its own. -/
theorem runWithin_fails {node : Node} (inPlace : env.deferral = none) (alone : w.Alone)
    (numbered : ∀ cell ∈ w.used, cell < w.cells) (turns : Nat) {patience time : Nat} {error : RenderError}
    (patient : time ≤ w.now + patience)
    (fails : ((Built.node node).rendering env).EndsAlone w.now (.failed error) time) :
    ∃ after, ((Built.node node).rendering env).runWithin turns patience w =
      (.ok (some (.error error)), after) ∧ after.now = time := by
  have company := (Company.nobody numbered).join rfl
    (List.forall_mem_singleton.2 ((Built.node node).abreast env nothingPaired))
  have gathering : Gathering w [Member.fresh w.now ((Built.node node).rendering env)] :=
    company.toGathering
  have ahead : w.now ≤ time := fails.now_le
  have enough : time < 2 * (w.now + patience - w.now) + 2 + w.now := by omega
  obtain ⟨after, failed, now⟩ := EventLoop.waitRounds_fails turns patient enough gathering
    ((Built.node node).silent_rendering inPlace) alone fails ahead
  refine ⟨after, ?_, now⟩
  change EventLoop.wait awaitable turns (w.now + patience) ((Built.node node).rendering env) w = _ at failed
  rw [Rendering.runWithin, failed]

/-- On its own, a group of siblings fails as follows.  A group of at most 30 fails as soon as one of them
    does, with the error of the first in order of those that fail first; if none of them panics and one
    fails, it does fail.  A larger group fails with the first in order that does not come to its markup,
    when that one and everything before it have come to their ends; so what never settles hides all
    failures behind it.  Where nothing can be deferred, the main task gets the error at this time.  In any
    state, a group that fails does so in the turn of a sibling, and those behind it do nothing any more. -/
theorem siblings_fail {node : Node} {children : List Node} (inside : node.siblings? = some children)
    (env : Environment) (start : Nat) :
    (∀ error time, ((Built.node node).rendering env).EndsAlone start (.failed error) time ↔
      ∃ before child after, renderedAlone children env = before ++ child :: after ∧
        if children.length ≤ promptLimit then FirstToFail start before child after error time
        else FirstUnfinished start before child after error time) ∧
    (children.length ≤ promptLimit →
      (∀ part ∈ renderedAlone children env, ∀ message t, ¬part.EndsAlone start (.panicked message) t) →
      (∃ part ∈ renderedAlone children env, ∃ error t, part.EndsAlone start (.failed error) t) →
      ∃ error time, ((Built.node node).rendering env).EndsAlone start (.failed error) time) ∧
    (env.deferral = none → ∀ {w : EventLoop}, w.Alone → (∀ cell ∈ w.used, cell < w.cells) →
      w.now = start → ∀ (turns : Nat) {patience time error}, time ≤ start + patience →
        ((Built.node node).rendering env).EndsAlone start (.failed error) time →
          ∃ after, ((Built.node node).rendering env).runWithin turns patience w =
            (.ok (some (.error error)), after) ∧ after.now = time) ∧
    ∃ write : List String → String,
      (∀ first, node.rendering env first =
        join (renderings children env first) fun markup => done (write markup)) ∧
      ∀ parts error w w', (join parts fun markup => done (write markup)).poll w = (.failed error, w') →
        FailsInTurn parts w error w' := by
  refine ⟨endsAlone_failed_iff inside, fun small calm fails => ?_, ?_, ?_⟩
  · obtain ⟨error, time, before, child, after, split, first⟩ := exists_firstToFail calm fails
    refine ⟨error, time, (endsAlone_failed_iff inside error time).2 ⟨before, child, after, split, ?_⟩⟩
    rwa [if_pos small]
  · rintro inPlace w alone numbered rfl turns patience time error patient fails
    exact runWithin_fails inPlace alone numbered turns patient fails
  · obtain ⟨write, same⟩ := (rendering_of_siblings inside).2 env
    exact ⟨write, same, fun parts error w w' fails => failsInTurn fails⟩

/-- The first of some siblings takes a while, the second fails at once, and the others are there.  A group of
    30 fails at once, and a group of 31 when the first sibling is there. -/
theorem siblings_fail_around_limit :
    let late : Node := .await { pace := .ofDelays "value" [10] false, result := () } (.node (.markup "a"))
    let page (others : Nat) : Node :=
      .group (late :: .fail (.failed "down") :: List.replicate others (.markup "."))
    ((Built.node (page 28)).rendering .empty).EndsAlone 0 (.failed (.failed "down")) 0 ∧
      ((Built.node (page 29)).rendering .empty).EndsAlone 0 (.failed (.failed "down")) 10 := by
  intro late page
  have fails : ((Built.node (.fail (.failed "down"))).rendering .empty).EndsAlone 0
      (.failed (.failed "down")) 0 := (endsAt_of_isOver rfl).2 ⟨rfl, rfl⟩
  have succeeds : late.Succeeds .empty :=
    ⟨⟨by simp [Pace.Unasked, Pace.ofDelays, Sleep.alarm?], rfl, rfl⟩, trivial⟩
  have comes : ((Built.node late).rendering .empty).EndsAlone 0 (.done "a") 10 :=
    Node.endsAlone rfl succeeds 0
  have calm (others : Nat) : ∀ part ∈ renderedAlone (List.replicate others (.markup ".")) .empty,
      ∀ left t, part.EndsAlone 0 left t → left = .done "." := by
    intro part member left t ends
    obtain ⟨child, isOne, rfl⟩ := List.mem_map.1 member
    obtain rfl := List.eq_of_mem_replicate isOne
    exact ((endsAt_of_isOver rfl).1 ends).1
  -- A group of 30 is prompt and does not wait for the first sibling, one of 31 does.
  constructor
  · refine ((siblings_fail rfl .empty 0).1 _ 0).2 ⟨[(Built.node late).rendering .empty],
      (Built.node (.fail (.failed "down"))).rendering .empty,
      renderedAlone (List.replicate 28 (.markup ".")) .empty, rfl, ?_⟩
    rw [if_pos (by simp [promptLimit])]
    refine ⟨fails, fun part member t breaks => ?_, fun part member t breaks => Nat.zero_le t⟩
    obtain rfl := List.mem_singleton.1 member
    obtain ⟨left, ends, broken⟩ := breaks
    obtain ⟨rfl, -⟩ := EndsAt.unique comes ends
    cases broken
  · refine ((siblings_fail rfl .empty 0).1 _ 10).2 ⟨[(Built.node late).rendering .empty],
      (Built.node (.fail (.failed "down"))).rendering .empty,
      renderedAlone (List.replicate 29 (.markup ".")) .empty, rfl, ?_⟩
    rw [if_neg (by simp [promptLimit])]
    refine ⟨⟨0, Nat.zero_le 10, fails⟩, fun part member => ?_,
      ⟨(Built.node late).rendering .empty, by simp, _, comes⟩, fun part member message t ends => ?_⟩
    · obtain rfl := List.mem_singleton.1 member
      exact ⟨"a", 10, Nat.le_refl 10, comes⟩
    · cases calm 29 part member _ t ends

/-- In a group of 31 the first sibling never settles.  The second fails at once, but the group does not fail
    at all. -/
theorem unnoticed_failure :
    let stuck : Node := .await { pace := .ofDelays "slow" [] true, result := () } (.node (.text "x"))
    let page : Node := .group (stuck :: .fail (.failed "down") :: List.replicate 29 (.text "."))
    ((Built.node (.fail (.failed "down"))).rendering .empty).EndsAlone 0 (.failed (.failed "down")) 0 ∧
      ∀ error time, ¬((Built.node page).rendering .empty).EndsAlone 0 (.failed error) time := by
  intro stuck page
  refine ⟨(endsAt_of_isOver rfl).2 ⟨rfl, rfl⟩, fun error time ends => ?_⟩
  have never (left : Rendering) (t : Nat) :
      ¬((Built.node stuck).rendering .empty).EndsAlone 0 left t := by
    intro ends
    obtain ⟨alarm, isRunning, -⟩ := (endsAt_of_waiting rfl).1 ends
    exact List.not_mem_nil (show alarm ∈ [] from isRunning)
  obtain ⟨before, child, after, split, rule⟩ := (endsAlone_failed_iff rfl error time).1 ends
  rw [if_neg (by simp [promptLimit])] at rule
  cases before with
  | nil =>
    obtain ⟨rfl, -⟩ := List.cons.inj split
    obtain ⟨own, -, fails⟩ := rule.fails
    exact never _ own fails
  | cons first before =>
    obtain ⟨rfl, -⟩ := List.cons.inj split
    obtain ⟨markup, t, -, comes⟩ := rule.there _ List.mem_cons_self
    exact never _ t comes

end Node

end ProgressiveHtml
