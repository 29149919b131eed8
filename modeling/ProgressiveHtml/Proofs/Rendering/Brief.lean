import ProgressiveHtml.Proofs.Rendering.Resting
import ProgressiveHtml.Waiting

namespace ProgressiveHtml

/-!
# Renderings — those that wait for nothing

A rendering is brief when no way of going on with it waits, uses up a content or hands in a fragment.
Asked once, it is over, and all that it leaves behind is in the journal.  A tree without awaited and
deferrable parts is rendered briefly.

* `Rendering.Brief` — brief renderings;
* `EventLoop.Noted` — what a brief rendering does to a state;
* `Rendering.Brief.poll` — asked once, a brief rendering is over;
* `Node.Brief`, `Node.brief_rendering` — the trees that are rendered briefly;
* `Fragment.brief_settled` — the fragments whose content is shown briefly.
-/

/-- Something was written to the journal, and nothing else has happened. -/
def EventLoop.Noted (w w' : EventLoop) : Prop :=
  ∃ journal, w' = { w with timeline := { w.timeline with journal } }

namespace EventLoop.Noted

variable {w w' w'' : EventLoop}

theorem refl (w : EventLoop) : w.Noted w := ⟨w.timeline.journal, rfl⟩

theorem trans (first : w.Noted w') (second : w'.Noted w'') : w.Noted w'' := by
  obtain ⟨_, rfl⟩ := first
  obtain ⟨journal, rfl⟩ := second
  exact ⟨journal, rfl⟩

theorem note (w : EventLoop) (event : Event) : w.Noted (w.note event) := ⟨_, rfl⟩

end EventLoop.Noted

namespace Rendering

mutual

/-- No way of going on waits, uses up a content or hands in a fragment. -/
def Brief : Rendering → Prop
  | done _ | failed _ | panicked _ => True
  | note _ next => next.Brief
  | number size next => size = 0 ∧ ∀ first, (next first).Brief
  | outstanding next => ∀ pending, (next pending).Brief
  | join parts next => BriefAll parts ∧ ∀ texts, (next texts).Brief
  | attempt body next => body.Brief ∧ ∀ result, (next result).Brief
  | _ => False
termination_by structural r => r

/-- All siblings are brief. -/
def BriefAll : List Rendering → Prop
  | [] => True
  | part :: rest => part.Brief ∧ BriefAll rest
termination_by structural parts => parts

end

/-- A sibling that is over, and does not end its group when everything before it is there, is there
    too. -/
theorem isDone_of_isOver {part : Rendering} {prompt : Bool} (ended : part.isOver)
    (goesOn : part.endsGroup prompt true = false) : part.isDone := by
  cases part with
  | done => rfl
  | failed => simp [endsGroup] at goesOn
  | panicked => simp [endsGroup] at goesOn
  | _ => simp [isOver] at ended

/-- A group whose siblings so far are all over does not wait. -/
theorem not_waiting_of_isOver {part : Rendering} {prompt : Bool} {rest : List Rendering}
    (ended : part.isOver)
    (others : part.isDone → verdictFrom prompt true rest ≠ .waiting) :
    verdictFrom prompt true (part :: rest) ≠ .waiting := by
  cases part with
  | done markup =>
    have others := others rfl
    cases stands : verdictFrom prompt true rest with
    | waiting => exact absurd stands others
    | _ => simp [verdictFrom, stands]
  | failed => simp [verdictFrom]
  | panicked => simp [verdictFrom]
  | _ => simp [isOver] at ended

mutual

/-- A brief rendering is over once it has been asked. -/
theorem Brief.poll {r : Rendering} (brief : r.Brief) (w : EventLoop) :
    (r.poll w).1.isOver ∧ w.Noted (r.poll w).2 := by
  cases r with
  | done | failed | panicked => exact ⟨rfl, .refl w⟩
  | note event next =>
    obtain ⟨ended, noted⟩ := Brief.poll (r := next) brief (w.note event)
    exact ⟨ended, (EventLoop.Noted.note w event).trans noted⟩
  | number size next =>
    obtain ⟨rfl, onward⟩ := brief
    exact (onward w.cells).poll w
  | outstanding next => exact (brief w.registry.pending).poll w
  | join parts next =>
    obtain ⟨parts', onward⟩ := brief
    obtain ⟨unwaiting, noted⟩ := BriefAll.pollAll parts' (isPrompt parts.length) w
    -- The verdict is given as many siblings as were asked, so that it judges as asking them did.
    have goesOn : verdict (Rendering.pollAll (isPrompt parts.length) true parts w).1 ≠ .waiting := by
      rwa [verdict, length_pollAll]
    rw [poll_join]
    cases stands : verdict (Rendering.pollAll (isPrompt parts.length) true parts w).1 with
    | complete texts =>
      obtain ⟨ended, later⟩ := (onward texts).poll _
      exact ⟨ended, noted.trans later⟩
    | failed | panicked => exact ⟨rfl, noted⟩
    | waiting => exact absurd stands goesOn
  | attempt body next =>
    obtain ⟨body', onward⟩ := brief
    obtain ⟨ended, noted⟩ := body'.poll w
    rw [poll_attempt]
    generalize (body.poll w).1 = left at ended
    cases left with
    | done markup =>
      obtain ⟨ended, later⟩ := (onward (.ok markup)).poll (body.poll w).2
      exact ⟨ended, noted.trans later⟩
    | failed error =>
      obtain ⟨ended, later⟩ := (onward (.error error)).poll (body.poll w).2
      exact ⟨ended, noted.trans later⟩
    | panicked => exact ⟨rfl, noted⟩
    | _ => simp [isOver] at ended
  | claim | register | wait | race => exact brief.elim
termination_by structural r

/-- A group of brief siblings does not wait once they have been asked. -/
theorem BriefAll.pollAll {parts : List Rendering} (brief : BriefAll parts) (prompt : Bool)
    (w : EventLoop) :
    verdictFrom prompt true (Rendering.pollAll prompt true parts w).1 ≠ .waiting ∧
      w.Noted (Rendering.pollAll prompt true parts w).2 := by
  cases parts with
  | nil => exact ⟨by simp [Rendering.pollAll, verdictFrom], .refl w⟩
  | cons part rest =>
    obtain ⟨ended, noted⟩ := brief.1.poll w
    rw [pollAll_cons]
    by_cases ends : (part.poll w).1.endsGroup prompt true
    · rw [if_pos ends]
      -- A sibling that ends its group is not there, so the ones that were not asked do not count.
      refine ⟨not_waiting_of_isOver ended fun there => ?_, noted⟩
      generalize (part.poll w).1 = left at ends there
      cases left <;> simp [endsGroup, isDone] at ends there
    · have there := isDone_of_isOver ended (Bool.not_eq_true _ ▸ ends)
      obtain ⟨others, later⟩ := BriefAll.pollAll brief.2 prompt (part.poll w).2
      rw [if_neg ends, there, Bool.and_true]
      exact ⟨not_waiting_of_isOver ended fun _ => others, noted.trans later⟩
termination_by structural parts

end

/-- Going on briefly after a brief rendering. -/
theorem Brief.andThen {r : Rendering} (brief : r.Brief) {next : String → Rendering}
    (onward : ∀ markup, (next markup).Brief) : (r.andThen next).Brief := by
  induction r using Rendering.rec (motive_2 := fun _ => True) with
  | done markup => exact onward markup
  | failed | panicked => trivial
  | note _ _ ih => exact ih brief
  | number _ _ ih => exact ⟨brief.1, fun first => ih first (brief.2 first)⟩
  | outstanding _ ih => exact fun pending => ih pending (brief pending)
  | join _ _ _ ih => exact ⟨brief.1, fun texts => ih texts (brief.2 texts)⟩
  | attempt _ _ _ ih => exact ⟨brief.1, fun result => ih result (brief.2 result)⟩
  | claim | register | wait | race => exact brief.elim
  | nil | cons => trivial

/-- A brief rendering several times in a row. -/
theorem Brief.times {r : Rendering} (brief : r.Brief) (count : Nat) : (times count r).Brief := by
  induction count with
  | zero => trivial
  | succ count ih => exact brief.andThen fun _ => ih.andThen fun _ => trivial

end Rendering

/-! ### Trees -/

mutual

/-- A tree without awaited and deferrable parts. -/
def Node.Brief : Node → Environment → Prop
  | .element _ _ children, env => Node.BriefAll children env
  | .group children, env => Node.BriefAll children env
  | .head _ children, env => Node.BriefAll children env
  | .provide key value child, env => child.Brief (env.add key value)
  | .consume key build, env => (build (env.get? key)).Brief env
  | .await .., _ => False
  | .defer .., _ => False
  | .again _ child, env => child.Brief env
  | .recover child, env => child.Brief env
  | _, _ => True
termination_by structural node => node

/-- Siblings without awaited and deferrable parts. -/
def Node.BriefAll : List Node → Environment → Prop
  | [], _ => True
  | node :: rest, env => node.Brief env ∧ Node.BriefAll rest env
termination_by structural nodes => nodes

/-- What a callback built has no awaited and deferrable parts; a panic has none. -/
def Built.Brief : Built → Environment → Prop
  | .node tree, env => tree.Brief env
  | .panics _, _ => True
termination_by structural built => built

end

mutual

/-- A tree without awaited and deferrable parts has no contents that can be used only once. -/
theorem Node.cells_of_brief (node : Node) {env : Environment} (brief : node.Brief env) :
    node.cells = 0 := by
  cases node with
  | element _ _ children => exact Node.cellsOfAll_of_brief children brief
  | group children => exact Node.cellsOfAll_of_brief children brief
  | head _ children => exact Node.cellsOfAll_of_brief children brief
  | provide _ _ child => exact child.cells_of_brief brief
  | again _ child => exact child.cells_of_brief brief
  | recover child => exact child.cells_of_brief brief
  | await | defer => exact brief.elim
  | _ => rfl
termination_by structural node

theorem Node.cellsOfAll_of_brief (nodes : List Node) {env : Environment}
    (brief : Node.BriefAll nodes env) : Node.cellsOfAll nodes = 0 := by
  cases nodes with
  | nil => rfl
  | cons node rest =>
    rw [Node.cellsOfAll, node.cells_of_brief brief.1, Node.cellsOfAll_of_brief rest brief.2]
termination_by structural nodes

end

mutual

/-- A tree without awaited and deferrable parts is rendered briefly. -/
theorem Node.brief_rendering (node : Node) {env : Environment} (brief : node.Brief env)
    (first : Nat) : (node.rendering env first).Brief := by
  cases node with
  | empty | markup | text | fail | panics => trivial
  | element tag attributes children =>
    exact ⟨Node.brief_renderings children brief first, fun _ => trivial⟩
  | group children => exact ⟨Node.brief_renderings children brief first, fun _ => trivial⟩
  | head title children => exact ⟨Node.brief_renderings children brief first, fun _ => trivial⟩
  | provide key value child => exact child.brief_rendering brief first
  | consume key build => exact (build _).brief_rendering brief
  | await | defer => exact brief.elim
  | again count child => exact (child.brief_rendering brief first).times count
  | recover child =>
    refine ⟨child.brief_rendering brief first, fun result => ?_⟩
    cases result <;> trivial
  | inspect keys =>
    rw [Node.rendering]
    cases env.deferral with
    | none => trivial
    | some timeout => exact fun pending => trivial
termination_by structural node

/-- So are siblings. -/
theorem Node.brief_renderings (nodes : List Node) {env : Environment}
    (brief : Node.BriefAll nodes env) (first : Nat) :
    Rendering.BriefAll (Node.renderings nodes env first) := by
  cases nodes with
  | nil => trivial
  | cons node rest =>
    exact ⟨node.brief_rendering brief.1 first, Node.brief_renderings rest brief.2 _⟩
termination_by structural nodes

/-- So is what a callback built. -/
theorem Built.brief_rendering (built : Built) {env : Environment} (brief : built.Brief env) :
    (built.rendering env).Brief := by
  cases built with
  | node tree => exact ⟨tree.cells_of_brief brief, fun first => tree.brief_rendering brief first⟩
  | panics => trivial
termination_by structural built

end

/-- So is what a callback built that did not panic. -/
theorem Built.brief_rendering? (built : Built) {env : Environment} (brief : built.Brief env)
    {shown : Rendering} (rendered : built.rendering? env = some shown) : shown.Brief := by
  cases built with
  | node tree =>
    obtain rfl := Option.some.inj rendered
    exact ⟨tree.cells_of_brief brief, fun first => tree.brief_rendering brief first⟩
  | panics => simp [Built.rendering?] at rendered

/-! ### Fragments -/

namespace Fragment

variable {render : String → Built} {onError : Option (Chain → Built)} {env : Environment}

/-- Whatever a value has come to is shown briefly, if the callbacks build trees without awaited and
    deferrable parts. -/
theorem brief_settled (value : Eventual (Except Chain String))
    (shown : ∀ text, (render text).Brief env)
    (failed : ∀ build ∈ onError, ∀ error, (build error).Brief env) (result : Except Chain String) :
    ((ofCallbacks value render onError env).settled result).Brief := by
  cases result with
  | ok text => exact (render text).brief_rendering (shown text)
  | error error =>
    refine failureRendering_keeps (P := Rendering.Brief) _ trivial (fun _ _ => id) ?_
    intro callback given told built
    obtain ⟨build, isGiven, rfl⟩ := Option.map_eq_some_iff.1 given
    exact (build error).brief_rendering? (failed build isGiven error) built

end Fragment

end ProgressiveHtml
