import ProgressiveHtml.Proofs.Rendering.Step
import ProgressiveHtml.Waiting

namespace ProgressiveHtml

/-!
# Renderings — those that hand in nothing

A rendering is silent when no way of going on with it hands a fragment to the registry.  A tree is
rendered silently wherever nothing can be deferred, as in the head of a document.

* `Rendering.Silent` — silent renderings;
* `Rendering.Silent.step`, `Rendering.Silent.poll` — going on hands in nothing and leaves a silent rendering;
* `Node.silent_rendering` — the renderings of a tree where nothing can be deferred.
-/

namespace Rendering

mutual

/-- No way of going on hands in a fragment. -/
def Silent : Rendering → Prop
  | done _ => True
  | failed _ => True
  | panicked _ => True
  | note _ next => next.Silent
  | claim _ next => next.Silent
  | number _ next => ∀ first, (next first).Silent
  | outstanding next => ∀ pending, (next pending).Silent
  | register _ _ => False
  | wait _ next => next.Silent
  | race _ inTime late => inTime.Silent ∧ ∀ pace, (late pace).Silent
  | join parts next => SilentAll parts ∧ ∀ texts, (next texts).Silent
  | attempt body next => body.Silent ∧ ∀ result, (next result).Silent
termination_by structural r => r

/-- All siblings are silent. -/
def SilentAll : List Rendering → Prop
  | [] => True
  | part :: rest => part.Silent ∧ SilentAll rest
termination_by structural parts => parts

end

/-- The siblings of a silent group, with one of them in the middle. -/
theorem silentAll_middle {before after : List Rendering} {part : Rendering} :
    SilentAll (before ++ part :: after) ↔ SilentAll before ∧ part.Silent ∧ SilentAll after := by
  induction before with
  | nil => simp [SilentAll]
  | cons first rest ih => simp [SilentAll, ih, and_assoc]

/-- A step of a silent rendering hands in nothing, and what is left is silent. -/
theorem Silent.step {r r' : Rendering} {w w' : EventLoop} {handed : List Registration}
    (silent : r.Silent) (step : r.Step w handed r' w') : handed = [] ∧ r'.Silent := by
  induction step with
  | register => exact silent.elim
  | part _ before after next ih =>
    obtain ⟨parts, onward⟩ := silent
    obtain ⟨first, part, last⟩ := silentAll_middle.1 parts
    obtain ⟨none, left⟩ := ih part
    exact ⟨none, silentAll_middle.2 ⟨first, left, last⟩, onward⟩
  | body _ next ih =>
    obtain ⟨body, onward⟩ := silent
    obtain ⟨none, left⟩ := ih body
    exact ⟨none, left, onward⟩
  | number | outstanding => exact ⟨rfl, silent _⟩
  | complete | succeed | recover => exact ⟨rfl, silent.2 _⟩
  | inTime => exact ⟨rfl, silent.1⟩
  | late => exact ⟨rfl, silent.2 _⟩
  | note | claim | wait | settle | race => exact ⟨rfl, silent⟩
  | refuse | failPart | panicPart | panicBody => exact ⟨rfl, trivial⟩

/-- Steps of a silent rendering leave the registry as it is, and what is left is silent. -/
theorem Silent.steps {r r' : Rendering} {w w' : EventLoop} {handed : List Registration}
    (silent : r.Silent) (steps : r.Steps w handed r' w') : w'.registry = w.registry ∧ r'.Silent := by
  induction steps with
  | refl => exact ⟨rfl, silent⟩
  | head step _ ih =>
    obtain ⟨rfl, silent⟩ := silent.step step
    obtain ⟨same, left⟩ := ih silent
    obtain ⟨-, still⟩ | ⟨content, isOne, -⟩ := step.effect
    · exact ⟨same.trans still, left⟩
    · cases isOne

theorem Silent.poll {r : Rendering} (silent : r.Silent) (w : EventLoop) :
    (r.poll w).2.registry = w.registry ∧ (r.poll w).1.Silent := by
  obtain ⟨handed, steps⟩ := r.poll_steps w
  exact silent.steps steps

/-- Going on silently after a silent rendering. -/
theorem Silent.andThen {r : Rendering} (silent : r.Silent) {next : String → Rendering}
    (onward : ∀ markup, (next markup).Silent) : (r.andThen next).Silent := by
  induction r using Rendering.rec (motive_2 := fun _ => True) with
  | done markup => exact onward markup
  | failed | panicked => trivial
  | note _ _ ih => exact ih silent
  | claim _ _ ih => exact ih silent
  | wait _ _ ih => exact ih silent
  | number _ _ ih => exact fun first => ih first (silent first)
  | outstanding _ ih => exact fun pending => ih pending (silent pending)
  | register => exact silent.elim
  | race _ _ _ inTime late => exact ⟨inTime silent.1, fun pace => late pace (silent.2 pace)⟩
  | join _ _ _ ih => exact ⟨silent.1, fun texts => ih texts (silent.2 texts)⟩
  | attempt _ _ _ ih => exact ⟨silent.1, fun result => ih result (silent.2 result)⟩
  | nil | cons => trivial

/-- Rendering silently several times in a row. -/
theorem Silent.times {r : Rendering} (silent : r.Silent) (count : Nat) : (times count r).Silent := by
  induction count with
  | zero => trivial
  | succ count ih => exact silent.andThen fun _ => ih.andThen fun _ => trivial

end Rendering

/-- Going on silently once a value has taken its time. -/
theorem Eventual.silent_conclude {α : Type} (value : Eventual α) {next : α → Rendering}
    (onward : (next value.result).Silent) : (value.conclude next).Silent := by
  unfold conclude
  split
  · trivial
  · exact onward

/-- A fragment that cannot be deferred is rendered silently if what it shows is. -/
theorem Fragment.silent_rendering {f : Fragment} (fallback : Rendering)
    (onward : (f.settled f.value.result).Silent) : (f.rendering fallback none).Silent :=
  Eventual.silent_conclude _ onward

/-- A deferrable node uses up its content and is rendered as a fragment. -/
theorem Node.rendering_defer (value : Eventual (Except Chain String)) (render : String → Built)
    (fallback : Built) (onError : Option (Chain → Built)) (env : Environment) (first : Nat) :
    (Node.defer value render fallback onError).rendering env first =
      .claim first ((Fragment.ofCallbacks (value.numbered first) render onError env).rendering
        (fallback.rendering env) env.deferral) := by
  cases onError <;> rfl

mutual

/-- Where nothing can be deferred a tree is rendered silently. -/
theorem Node.silent_rendering (node : Node) {env : Environment} (inline : env.deferral = none)
    (first : Nat) : (node.rendering env first).Silent := by
  cases node with
  | empty | markup | text | fail | panics => trivial
  | element tag attributes children =>
    exact ⟨Node.silent_renderings children inline first, fun _ => trivial⟩
  | group children => exact ⟨Node.silent_renderings children inline first, fun _ => trivial⟩
  | head title children =>
    exact ⟨Node.silent_renderings children inline first, fun _ => trivial⟩
  | provide key value child =>
    have still : (env.add key value).deferral = none := inline
    exact child.silent_rendering still first
  | consume key build => exact (build _).silent_rendering inline
  | await value content =>
    exact Eventual.silent_conclude _ (content.silent_rendering inline)
  | defer value render fallback onError =>
    rw [Node.rendering_defer, inline]
    refine Fragment.silent_rendering (fallback.rendering env) ?_
    show (Fragment.settled _ value.result).Silent
    cases value.result with
    | ok shown => exact (render shown).silent_rendering inline
    | error chain =>
      refine failureRendering_keeps (P := Rendering.Silent) _ trivial (fun _ _ => id) ?_
      intro callback given shown built
      -- The callback is taken out of the node by cases, so that the recursion stays structural.
      cases onError with
      | none => simp [Fragment.ofCallbacks] at given
      | some build =>
        obtain rfl := Option.some.inj given
        exact (build chain).silent_rendering? inline built
  | again count child => exact (child.silent_rendering inline first).times count
  | recover child =>
    refine ⟨child.silent_rendering inline first, fun result => ?_⟩
    cases result <;> trivial
  | inspect keys =>
    rw [Node.rendering, inline]
    trivial
termination_by structural node

/-- So are siblings. -/
theorem Node.silent_renderings (nodes : List Node) {env : Environment}
    (inline : env.deferral = none) (first : Nat) :
    Rendering.SilentAll (Node.renderings nodes env first) := by
  cases nodes with
  | nil => trivial
  | cons node rest =>
    exact ⟨node.silent_rendering inline first, Node.silent_renderings rest inline _⟩
termination_by structural nodes

/-- So is what a callback built. -/
theorem Built.silent_rendering (built : Built) {env : Environment} (inline : env.deferral = none) :
    (built.rendering env).Silent := by
  cases built with
  | node tree => exact fun first => tree.silent_rendering inline first
  | panics => trivial
termination_by structural built

theorem Built.silent_rendering? (built : Built) {env : Environment} (inline : env.deferral = none)
    {shown : Rendering} (rendered : built.rendering? env = some shown) : shown.Silent := by
  cases built with
  | node tree =>
    obtain rfl := Option.some.inj rendered
    exact fun first => tree.silent_rendering inline first
  | panics => simp [Built.rendering?] at rendered

end

end ProgressiveHtml
