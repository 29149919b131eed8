import ProgressiveHtml.Proofs.Rendering.Silent
import ProgressiveHtml.Proofs.Rendering.Twin

namespace ProgressiveHtml

/-!
# Nodes — trees that differ in what values come to

Two trees may differ only in what the values of some deferrable parts come to, whose callbacks build
nothing that waits.  Where fragments may be deferred, their renderings are twins.

* `Node.Differ`, `Built.Differ` — trees that differ in this way;
* `Fragment.twins`, `Fragment.twins_of_result` — the fragments in them;
* `Node.Differ.twins` — the renderings of such trees.
-/

mutual

/-- Two trees are the same but for the results of the values of some deferrable parts, which have the
    names in `F`.  The callbacks for these values and for their failures build trees without awaited and
    deferrable parts. -/
inductive Node.Differ (F : String → Prop) : Environment → Node → Node → Prop
  | same (env : Environment) (node : Node) : Node.Differ F env node node
  | element {env : Environment} {children children' : List Node} (tag : String)
      (attributes : List Markup.Attribute) (inside : Node.DifferAll F env children children') :
      Node.Differ F env (.element tag attributes children) (.element tag attributes children')
  | group {env : Environment} {children children' : List Node}
      (inside : Node.DifferAll F env children children') :
      Node.Differ F env (.group children) (.group children')
  | head {env : Environment} {children children' : List Node} (title : String)
      (inside : Node.DifferAll F env children children') :
      Node.Differ F env (.head title children) (.head title children')
  | provide {env : Environment} {child child' : Node} (key value : String)
      (inside : Node.Differ F (env.add key value) child child') :
      Node.Differ F env (.provide key value child) (.provide key value child')
  | consume {env : Environment} {build build' : Option String → Built} (key : String)
      (inside : Built.Differ F env (build (env.get? key)) (build' (env.get? key))) :
      Node.Differ F env (.consume key build) (.consume key build')
  | await {env : Environment} {content content' : Built} (value : Eventual Unit)
      (inside : Built.Differ F env content content') :
      Node.Differ F env (.await value content) (.await value content')
  /-- The value comes to the same, and what the callbacks build may differ inside. -/
  | defer {env : Environment} {render render' : String → Built} {fallback fallback' : Built}
      {onError onError' : Option (Chain → Built)} (value : Eventual (Except Chain String))
      (shown : ∀ text, Built.Differ F env (render text) (render' text))
      (waiting : Built.Differ F env fallback fallback')
      (alike : onError.isSome = onError'.isSome)
      (failing : ∀ build ∈ onError, ∀ build' ∈ onError', ∀ error,
        Built.Differ F env (build error) (build' error)) :
      Node.Differ F env (.defer value render fallback onError)
        (.defer value render' fallback' onError')
  /-- The value comes to something else after the same time. -/
  | result {env : Environment} {render : String → Built} {fallback fallback' : Built}
      {onError : Option (Chain → Built)} {value : Eventual (Except Chain String)}
      (named : F value.pace.label.name) (result : Except Chain String)
      (shown : ∀ text, (render text).Brief env) (waiting : Built.Differ F env fallback fallback')
      (failing : ∀ build ∈ onError, ∀ error, (build error).Brief env) :
      Node.Differ F env (.defer value render fallback onError)
        (.defer { value with result } render fallback' onError)
  | again {env : Environment} {child child' : Node} (count : Nat)
      (inside : Node.Differ F env child child') :
      Node.Differ F env (.again count child) (.again count child')
  | recover {env : Environment} {child child' : Node} (inside : Node.Differ F env child child') :
      Node.Differ F env (.recover child) (.recover child')

/-- Siblings differ only in this way. -/
inductive Node.DifferAll (F : String → Prop) : Environment → List Node → List Node → Prop
  | nil (env : Environment) : Node.DifferAll F env [] []
  | cons {env : Environment} {node node' : Node} {rest rest' : List Node}
      (first : Node.Differ F env node node') (others : Node.DifferAll F env rest rest') :
      Node.DifferAll F env (node :: rest) (node' :: rest')

/-- What two callbacks built differs only in this way. -/
inductive Built.Differ (F : String → Prop) : Environment → Built → Built → Prop
  | same (env : Environment) (built : Built) : Built.Differ F env built built
  | node {env : Environment} {tree tree' : Node} (inside : Node.Differ F env tree tree') :
      Built.Differ F env (.node tree) (.node tree')

end

open Rendering

variable {F : String → Prop}

mutual

/-- Trees that differ in this way have the same contents. -/
theorem Node.Differ.cells_eq : ∀ {env : Environment} {node node' : Node},
    Node.Differ F env node node' → node.cells = node'.cells
  | _, _, _, .same _ _ => rfl
  | _, _, _, .element _ _ inside => inside.cells_eq
  | _, _, _, .group inside => inside.cells_eq
  | _, _, _, .head _ inside => inside.cells_eq
  | _, _, _, .provide _ _ inside => inside.cells_eq
  | _, _, _, .consume .. | _, _, _, .await .. | _, _, _, .defer .. | _, _, _, .result .. => rfl
  | _, _, _, .again _ inside => inside.cells_eq
  | _, _, _, .recover inside => inside.cells_eq

theorem Node.DifferAll.cells_eq : ∀ {env : Environment} {nodes nodes' : List Node},
    Node.DifferAll F env nodes nodes' → Node.cellsOfAll nodes = Node.cellsOfAll nodes'
  | _, _, _, .nil _ => rfl
  | _, _, _, .cons first others => congrArg₂ (· + ·) first.cells_eq others.cells_eq

end

/-! ### Fragments -/

/-- Once a value has taken its time it is concluded in the same way. -/
theorem Eventual.twin_conclude {α : Type} (value : Eventual α) {next next' : α → Rendering}
    (onward : Twin F (next value.result) (next' value.result)) :
    Twin F (value.conclude next) (value.conclude next') := by
  unfold conclude
  split
  · exact .panicked _
  · exact onward

/-- Failures are shown by twins if what the callbacks build is rendered by twins. -/
theorem twin_failureRendering (label : Label) {onError onError' : Option (Chain → Option Rendering)}
    (error : Chain) (alike : onError.isSome = onError'.isSome)
    (onward : ∀ build ∈ onError, ∀ build' ∈ onError',
      Option.Rel (Twin F) (build error) (build' error)) :
    Twin F (failureRendering label onError error) (failureRendering label onError' error) := by
  cases onError <;> cases onError'
  case none.none => exact .refl _
  case none.some | some.none => cases alike
  case some.some build build' =>
    refine .note _ ?_
    have built := onward build rfl build' rfl
    generalize build error = shown, build' error = shown' at built
    cases built with
    | some twins => exact twins
    | none => exact .refl _

namespace Fragment

variable {f f' : Fragment} {fallback fallback' : Rendering}

/-- Two fragments with the same value are shown by twins. -/
theorem twin_settled (value : f.value = f'.value)
    (shown : ∀ text, Twin F (f.shown text) (f'.shown text))
    (alike : f.onError.isSome = f'.onError.isSome)
    (failed : ∀ build ∈ f.onError, ∀ build' ∈ f'.onError, ∀ error,
      Option.Rel (Twin F) (build error) (build' error)) (result : Except Chain String) :
    Twin F (f.settled result) (f'.settled result) := by
  have label : f.label = f'.label := congrArg (·.pace.label) value
  cases result with
  | ok text =>
    rw [settled, settled, label]
    exact .note _ (shown text)
  | error error =>
    rw [settled, settled, label]
    exact twin_failureRendering _ error alike fun build mine build' other =>
      failed build mine build' other error

/-- Two fragments with the same value are rendered by twins, wherever they stand. -/
theorem twins (value : f.value = f'.value)
    (settled : ∀ result, Twin F (f.settled result) (f'.settled result))
    (waiting : Twin F fallback fallback') (deferral : Option Nat) :
    Twin F (f.rendering fallback deferral) (f'.rendering fallback' deferral) := by
  have label : f.label = f'.label := congrArg (·.pace.label) value
  cases deferral with
  | none =>
    rw [rendering, rendering, ← value]
    exact .wait _ (f.value.twin_conclude (settled _))
  | some timeout =>
    rw [rendering, rendering, ← value, label]
    refine .race _ (f.value.twin_conclude (.note _ (settled _))) fun pace => ?_
    refine .register (fun slot => ?_) fun slot => .note _ (waiting.andThen fun _ => .done _)
    rw [late, late, ← value]
    refine .wait _ (f.value.twin_conclude ?_)
    cases isResult : f.value.result with
    | ok text => exact settled _
    | error error => exact .note _ (settled _)

/-- The content of a fragment that is late waits for its value, and then shows it briefly if the
    callbacks do. -/
theorem exists_late (f : Fragment) (brief : ∀ result, (f.settled result).Brief) (pace : Pace)
    (slot : Nat) : ∃ told, f.late pace slot = .wait pace told ∧ told.Brief := by
  refine ⟨_, rfl, ?_⟩
  unfold Eventual.conclude
  cases f.value.panic? with
  | some message => trivial
  | none =>
    cases isResult : f.value.result with
    | ok text => exact brief _
    | error error => exact brief (.error error)

/-- Two fragments of which the values come to something else after the same time are rendered by twins
    where they may be deferred. -/
theorem twins_of_result (pace : f.value.pace = f'.value.pace) (named : F f.label.name)
    (brief : ∀ result, (f.settled result).Brief) (brief' : ∀ result, (f'.settled result).Brief)
    (waiting : Twin F fallback fallback') (timeout : Nat) :
    Twin F (f.rendering fallback (some timeout)) (f'.rendering fallback' (some timeout)) := by
  have label : f.label = f'.label := congrArg Pace.label pace
  rw [rendering, rendering, ← pace]
  refine .miss named _ _ fun left => ?_
  rw [← label]
  refine .defer named (fun slot => ?_) fun slot => waiting.andThen fun _ => .done _
  obtain ⟨told, waits, isBrief⟩ := f.exists_late brief left slot
  obtain ⟨told', waits', isBrief'⟩ := f'.exists_late brief' left slot
  rw [waits, waits']
  exact .mk left isBrief isBrief'

end Fragment

/-! ### Trees -/

mutual

/-- Where fragments may be deferred, trees that differ only in what values come to are rendered by
    twins. -/
theorem Node.Differ.twins : ∀ {env : Environment} {node node' : Node},
    Node.Differ F env node node' → ∀ {timeout : Nat}, env.deferral = some timeout →
      ∀ first, Twin F (node.rendering env first) (node'.rendering env first)
  | _, _, _, .same _ _, _, _, _ => .refl _
  | _, _, _, .element _ _ inside, _, defers, first =>
    .join (inside.twins defers first) fun _ => .done _
  | _, _, _, .group inside, _, defers, first => .join (inside.twins defers first) fun _ => .done _
  | _, _, _, .head _ inside, _, defers, first => .join (inside.twins defers first) fun _ => .done _
  | _, _, _, .provide _ _ inside, _, defers, first => inside.twins defers first
  | _, _, _, .consume _ inside, _, defers, _ => inside.twins defers
  | _, _, _, .await value inside, _, defers, first =>
    .claim first (.wait _ (value.twin_conclude (inside.twins defers)))
  | env, .defer _ render _ onError, .defer _ render' _ onError',
      .defer value shown waiting alike failing, _, defers, first => by
    rw [Node.rendering_defer, Node.rendering_defer]
    let f := Fragment.ofCallbacks (value.numbered first) render onError env
    let f' := Fragment.ofCallbacks (value.numbered first) render' onError' env
    have same : f.value = f'.value := rfl
    refine .claim first (Fragment.twins same ?_ (waiting.twins defers) env.deferral)
    refine Fragment.twin_settled same (fun text => (shown text).twins defers) ?_ ?_
    · simpa [f, f', Fragment.ofCallbacks] using alike
    · intro build mine build' other error
      obtain ⟨made, isMade, rfl⟩ := Option.map_eq_some_iff.1 mine
      obtain ⟨made', isMade', rfl⟩ := Option.map_eq_some_iff.1 other
      exact (failing made isMade made' isMade' error).twins? defers
  | env, .defer value render _ onError, _, .result named result shown waiting failing, timeout,
      defers, first => by
    -- Here the deferral is needed: what the value comes to is on the page unless it may be too late.
    rw [Node.rendering_defer, Node.rendering_defer, defers]
    let f := Fragment.ofCallbacks (value.numbered first) render onError env
    let f' := Fragment.ofCallbacks ({ value with result }.numbered first) render onError env
    have pace : f.value.pace = f'.value.pace := rfl
    have brief : ∀ result, (f.settled result).Brief := Fragment.brief_settled _ shown failing
    have brief' : ∀ result, (f'.settled result).Brief := Fragment.brief_settled _ shown failing
    exact .claim first
      (Fragment.twins_of_result pace named brief brief' (waiting.twins defers) timeout)
  | _, _, _, .again count inside, _, defers, first => (inside.twins defers first).times count
  | _, _, _, .recover inside, _, defers, first =>
    .attempt (inside.twins defers first) fun _ => .refl _

theorem Node.DifferAll.twins : ∀ {env : Environment} {nodes nodes' : List Node},
    Node.DifferAll F env nodes nodes' → ∀ {timeout : Nat}, env.deferral = some timeout →
      ∀ first, TwinAll F (Node.renderings nodes env first) (Node.renderings nodes' env first)
  | _, _, _, .nil _, _, _, _ => .nil
  | env, node :: rest, node' :: rest', .cons inFirst others, _, defers, first => by
    rw [Node.renderings, Node.renderings, ← inFirst.cells_eq]
    exact .cons (inFirst.twins defers first) (others.twins defers _)

theorem Built.Differ.twins : ∀ {env : Environment} {built built' : Built},
    Built.Differ F env built built' → ∀ {timeout : Nat}, env.deferral = some timeout →
      Twin F (built.rendering env) (built'.rendering env)
  | _, _, _, .same _ _, _, _ => .refl _
  | env, .node tree, .node tree', .node inside, _, defers => by
    rw [Built.rendering, Built.rendering, ← inside.cells_eq]
    exact .number _ fun first => inside.twins defers first

/-- So is what callbacks built that may have panicked. -/
theorem Built.Differ.twins? : ∀ {env : Environment} {built built' : Built},
    Built.Differ F env built built' → ∀ {timeout : Nat}, env.deferral = some timeout →
      Option.Rel (Twin F) (built.rendering? env) (built'.rendering? env)
  | env, built, _, .same _ _, _, _ => by
    cases built.rendering? env with
    | none => exact .none
    | some shown => exact .some (.refl shown)
  | env, .node tree, .node tree', .node inside, _, defers => by
    rw [Built.rendering?, Built.rendering?, ← inside.cells_eq]
    exact .some (.number _ fun first => inside.twins defers first)

end

end ProgressiveHtml
