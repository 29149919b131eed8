import ProgressiveHtml.Proofs.Node.Parts
import ProgressiveHtml.Proofs.Rendering.Coming
import ProgressiveHtml.Proofs.Rendering.Silent

namespace ProgressiveHtml

/-!
# Nodes — rendered in place

Where nothing can be deferred, as in the head of a document, a tree is rendered to the text in which every
value stands as what it came to.  The delays of the values decide when the text is there, and nothing
else: siblings are there when the last of them is.

* `Node.Succeeds`, `Built.Succeeds` — trees in which all values settle and nothing fails;
* `Node.duration` — how long the rendering of such a tree takes;
* `Node.Retimed` — trees that are the same but for the delays of their values;
* `Node.comesTo` — the text of a tree, and when it is there;
* `Node.Retimed.rendered_inPlace` — the text does not depend on the delays.
-/

/-! ### Trees in which nothing fails -/

/-- A value that has not been asked, and comes to a result. -/
structure Eventual.Arrives {α : Type} (value : Eventual α) : Prop where
  unasked : value.pace.Unasked
  settles : value.pace.never = false
  sound : value.panic? = none

mutual

/-- In an environment all values of a tree settle, nothing in it fails or is rendered twice, and no
    callback panics but those for failures. -/
def Node.Succeeds : Node → Environment → Prop
  | .element _ _ children, env => Node.SucceedAll children env
  | .group children, env => Node.SucceedAll children env
  | .head _ children, env => Node.SucceedAll children env
  | .provide key value child, env => child.Succeeds (env.add key value)
  | .consume key build, env => (build (env.get? key)).Succeeds false env
  | .await value content, env => value.Arrives ∧ content.Succeeds false env
  | .defer value render _ onError, env =>
    value.Arrives ∧
      match value.result with
      | .ok text => (render text).Succeeds false env
      | .error error =>
        match onError with
        | none => True
        | some build => (build error).Succeeds true env
  | .fail _, _ => False
  | .panics _, _ => False
  | .again _ _, _ => False
  | .recover _, _ => False
  | .inspect _, _ => False
  | _, _ => True
termination_by structural node => node

/-- The same of siblings. -/
def Node.SucceedAll : List Node → Environment → Prop
  | [], _ => True
  | node :: rest, env => node.Succeeds env ∧ Node.SucceedAll rest env
termination_by structural nodes => nodes

/-- The same of what a callback built, which may panic or may not. -/
def Built.Succeeds : Built → (mayPanic : Bool) → Environment → Prop
  | .node tree, _, env => tree.Succeeds env
  | .panics _, mayPanic, _ => mayPanic = true
termination_by structural built => built

end

theorem Node.succeeds_defer {value : Eventual (Except Chain String)} {render : String → Built}
    {fallback : Built} {onError : Option (Chain → Built)} {env : Environment} :
    (Node.defer value render fallback onError).Succeeds env ↔
      value.Arrives ∧
        match value.result with
        | .ok shown => (render shown).Succeeds false env
        | .error error => ∀ build ∈ onError, (build error).Succeeds true env := by
  cases onError <;> cases result : value.result <;> simp [Node.Succeeds, result]

mutual

/-- How long it takes until a tree is rendered in which nothing fails: siblings are there when the last of
    them is, and content that is known only later takes its time after its value. -/
def Node.duration : Node → (values : Named String) → Nat
  | .element _ _ children, values => Node.longest children values
  | .group children, values => Node.longest children values
  | .head _ children, values => Node.longest children values
  | .provide key value child, values => child.duration (values.put key value)
  | .consume key build, values => (build (values.get? key)).duration values
  | .await value content, values => value.pace.ahead 0 + content.duration values
  | .defer value render _ onError, values =>
    value.pace.ahead 0 +
      match value.result with
      | .ok text => (render text).duration values
      | .error error =>
        match onError with
        | none => 0
        | some build => (build error).duration values
  | _, _ => 0
termination_by structural node => node

/-- The longest of the durations of siblings. -/
def Node.longest : List Node → (values : Named String) → Nat
  | [], _ => 0
  | node :: rest, values => max (node.duration values) (Node.longest rest values)
termination_by structural nodes => nodes

/-- How long it takes until what a callback built is rendered. -/
def Built.duration : Built → (values : Named String) → Nat
  | .node tree, values => tree.duration values
  | .panics _, _ => 0
termination_by structural built => built

end

/-! ### What a tree comes to -/

open Rendering

section

variable {env : Environment} {now : Nat}

/-- A value takes its time, and then comes what is made of its result. -/
theorem Eventual.Arrives.comesTo {α : Type} {value : Eventual α} (arrives : value.Arrives) (cell : Nat)
    {next : α → Rendering} {text : String} {length : Nat}
    (comes : ∀ now, (next value.result).ComesTo now [] text (now + length)) :
    (claim cell <| wait (value.numbered cell).pace <| value.conclude next).ComesTo now [cell] text
      (now + (value.pace.ahead 0 + length)) := by
  have onTime : (value.numbered cell).pace.OnTime (some (now + value.pace.ahead 0)) now :=
    Pace.Unasked.onTime (p := (value.numbered cell).pace) arrives.unasked arrives.settles now
  refine ⟨[], rfl, now + value.pace.ahead 0, onTime, ?_⟩
  rw [Eventual.conclude, arrives.sound, ← Nat.add_assoc]
  exact comes _

/-- Siblings take as long as the one that takes longest. -/
theorem comesTo_join {parts : List Rendering} {own : List Nat} {texts : List String} {latest length : Nat}
    (comes : ComeTo parts now own texts latest) (longest : max now latest = now + length)
    (write : List String → String) :
    (join parts fun markup => done (write markup)).ComesTo now own (write texts) (now + length) :=
  ⟨texts, latest, comes, rfl, longest.symm⟩

mutual

/-- Where nothing can be deferred, a tree in which nothing fails comes to its text, in the time that it
    takes. -/
theorem Node.comesTo (node : Node) {env : Environment} (inPlace : env.deferral = none)
    (succeeds : node.Succeeds env) (now first : Nat) :
    (node.rendering env first).ComesTo now (List.range' first node.cells) (node.inlined env.values)
      (now + node.duration env.values) := by
  cases node with
  | empty | markup | text => exact ⟨rfl, rfl, rfl⟩
  | element tag attributes children =>
    obtain ⟨latest, comes, longest⟩ := Node.comeTo children inPlace succeeds now first
    exact comesTo_join comes longest _
  | group children =>
    obtain ⟨latest, comes, longest⟩ := Node.comeTo children inPlace succeeds now first
    exact comesTo_join comes longest _
  | head title children =>
    obtain ⟨latest, comes, longest⟩ := Node.comeTo children inPlace succeeds now first
    exact comesTo_join comes longest fun markup => headMarkup title ++ String.join markup
  | provide key value child =>
    have inside : (env.add key value).deferral = none := inPlace
    exact child.comesTo inside succeeds now first
  | consume key build => exact (build _).comesTo inPlace succeeds now ""
  | await value content =>
    exact succeeds.1.comesTo first fun now => content.comesTo inPlace succeeds.2 now ""
  | defer value render fallback onError =>
    obtain ⟨arrives, succeeds⟩ := Node.succeeds_defer.1 succeeds
    rw [Node.rendering_defer, inPlace]
    -- Once the value is there, its text or what is shown of its error comes, which takes its own
    -- time.
    have settled : ∃ length,
        (Node.defer value render fallback onError).duration env.values = value.pace.ahead 0 + length ∧
        ∀ now, ((Fragment.ofCallbacks (value.numbered first) render onError env).settled
          value.result).ComesTo now [] ((Node.defer value render fallback onError).inlined env.values)
            (now + length) := by
      rw [Node.duration, Node.inlined]
      cases result : value.result with
      | ok text =>
        rw [result] at succeeds
        exact ⟨_, rfl, fun now => ⟨⟨rfl, rfl⟩, (render text).comesTo inPlace succeeds now ""⟩⟩
      | error error =>
        rw [result] at succeeds
        cases onError with
        | none => exact ⟨0, rfl, fun now => ⟨rfl, rfl, rfl⟩⟩
        | some build =>
          exact ⟨_, rfl, fun now =>
            ⟨⟨rfl, rfl⟩, (build error).comesTo? inPlace (succeeds build rfl) now error⟩⟩
    obtain ⟨length, takes, comes⟩ := settled
    rw [takes]
    exact arrives.comesTo first comes
  | fail | panics | again | recover | inspect => exact succeeds.elim
termination_by structural node

/-- So do siblings, which take as long as the one that takes longest. -/
theorem Node.comeTo (nodes : List Node) {env : Environment} (inPlace : env.deferral = none)
    (succeed : Node.SucceedAll nodes env) (now first : Nat) :
    ∃ latest, ComeTo (Node.renderings nodes env first) now (List.range' first (Node.cellsOfAll nodes))
      (Node.inlinedAll nodes env.values) latest ∧
        max now latest = now + Node.longest nodes env.values := by
  cases nodes with
  | nil => exact ⟨0, ⟨rfl, rfl, rfl⟩, Nat.max_eq_left (Nat.zero_le _)⟩
  | cons node rest =>
    have comes := node.comesTo inPlace succeed.1 now first
    obtain ⟨latest, others, longest⟩ := Node.comeTo rest inPlace succeed.2 now (first + node.cells)
    refine ⟨_, ⟨_, _, _, _, _, _, ?_, rfl, rfl, others, .inr comes⟩, ?_⟩
    · exact List.range'_append_1.symm
    · rw [Node.longest]
      omega
termination_by structural nodes

/-- So does what a callback built. -/
theorem Built.comesTo (built : Built) {env : Environment} (inPlace : env.deferral = none)
    (succeeds : built.Succeeds false env) (now : Nat) (instead : String) :
    (built.rendering env).ComesTo now [] (built.inlined instead env.values)
      (now + built.duration env.values) := by
  cases built with
  | node tree => exact ⟨rfl, fun first => tree.comesTo inPlace succeeds now first⟩
  | panics => cases succeeds
termination_by structural built

/-- So does what a callback for a failure built; where it panicked, the built-in markup stands. -/
theorem Built.comesTo? (built : Built) {env : Environment} (inPlace : env.deferral = none)
    (succeeds : built.Succeeds true env) (now : Nat) (error : Chain) :
    (match built.rendering? env with
      | some shown => shown
      | none => .note (.notice (.failureRenderPanicked error)) (.done (failureMarkup error.full))).ComesTo
        now [] (built.inlined (failureMarkup error.full) env.values) (now + built.duration env.values) := by
  cases built with
  | node tree => exact ⟨rfl, fun first => tree.comesTo inPlace succeeds now first⟩
  | panics => exact ⟨⟨rfl, rfl⟩, rfl, rfl, rfl⟩
termination_by structural built

end

end

/-! ### The same tree at other times -/

mutual

/-- Two trees are the same but for the delays of their values, and but for fallbacks. -/
inductive Node.Retimed : Node → Node → Prop
  | same (node : Node) : Node.Retimed node node
  | element {children children' : List Node} (tag : String) (attributes : List Markup.Attribute)
      (inside : Node.RetimedAll children children') :
      Node.Retimed (.element tag attributes children) (.element tag attributes children')
  | group {children children' : List Node} (inside : Node.RetimedAll children children') :
      Node.Retimed (.group children) (.group children')
  | head {children children' : List Node} (title : String) (inside : Node.RetimedAll children children') :
      Node.Retimed (.head title children) (.head title children')
  | provide {child child' : Node} (key value : String) (inside : Node.Retimed child child') :
      Node.Retimed (.provide key value child) (.provide key value child')
  | consume {build build' : Option String → Built} (key : String)
      (inside : ∀ visible, Built.Retimed (build visible) (build' visible)) :
      Node.Retimed (.consume key build) (.consume key build')
  | await {content content' : Built} (value value' : Eventual Unit)
      (inside : Built.Retimed content content') :
      Node.Retimed (.await value content) (.await value' content')
  | defer {value value' : Eventual (Except Chain String)} {render render' : String → Built}
      {onError onError' : Option (Chain → Built)} (fallback fallback' : Built)
      (same : value.result = value'.result)
      (shown : ∀ text, Built.Retimed (render text) (render' text))
      (alike : onError.isSome = onError'.isSome)
      (failing : ∀ build ∈ onError, ∀ build' ∈ onError', ∀ error,
        Built.Retimed (build error) (build' error)) :
      Node.Retimed (.defer value render fallback onError) (.defer value' render' fallback' onError')

/-- The same of siblings. -/
inductive Node.RetimedAll : List Node → List Node → Prop
  | nil : Node.RetimedAll [] []
  | cons {node node' : Node} {rest rest' : List Node} (first : Node.Retimed node node')
      (others : Node.RetimedAll rest rest') : Node.RetimedAll (node :: rest) (node' :: rest')

/-- The same of what two callbacks built. -/
inductive Built.Retimed : Built → Built → Prop
  | node {tree tree' : Node} (inside : Node.Retimed tree tree') :
      Built.Retimed (.node tree) (.node tree')
  | panics (message : String) : Built.Retimed (.panics message) (.panics message)

end

theorem Node.RetimedAll.same (nodes : List Node) : Node.RetimedAll nodes nodes := by
  induction nodes with
  | nil => exact .nil
  | cons node rest ih => exact .cons (.same node) ih

mutual

/-- The text of a tree does not depend on delays. -/
theorem Node.Retimed.inlined : ∀ {node node' : Node}, node.Retimed node' → ∀ values,
    node.inlined values = node'.inlined values
  | _, _, .same _, _ => rfl
  | _, _, .element tag attributes inside, values =>
    congrArg (Markup.element tag attributes) (inside.inlined values)
  | _, _, .group inside, values => congrArg String.join (inside.inlined values)
  | _, _, .head title inside, values =>
    congrArg (headMarkup title ++ String.join ·) (inside.inlined values)
  | _, _, .provide _ _ inside, _ => inside.inlined _
  | _, _, .consume _ inside, values => (inside _).inlined "" values
  | _, _, .await _ _ inside, values => inside.inlined "" values
  | .defer value render _ onError, .defer value' render' _ onError',
      .defer _ _ same shown alike failing, values => by
    rw [Node.inlined, Node.inlined, ← same]
    cases value.result with
    | ok text => exact (shown text).inlined "" values
    | error error =>
      cases onError with
      | none =>
        cases onError' with
        | none => rfl
        | some => cases alike
      | some build =>
        cases onError' with
        | none => cases alike
        | some build' => exact (failing build rfl build' rfl error).inlined _ values

theorem Node.RetimedAll.inlined : ∀ {nodes nodes' : List Node}, Node.RetimedAll nodes nodes' →
    ∀ values, Node.inlinedAll nodes values = Node.inlinedAll nodes' values
  | _, _, .nil, _ => rfl
  | _, _, .cons first others, values =>
    congrArg₂ List.cons (first.inlined values) (others.inlined values)

theorem Built.Retimed.inlined : ∀ {built built' : Built}, built.Retimed built' → ∀ instead values,
    built.inlined instead values = built'.inlined instead values
  | _, _, .node inside, _, values => inside.inlined values
  | _, _, .panics _, _, _ => rfl

end

/-- The siblings inside a tree, if it is a group of siblings, or one inside an element or the head. -/
def Node.siblings? : Node → Option (List Node)
  | .element _ _ children => some children
  | .group children => some children
  | .head _ children => some children
  | _ => none

variable {node node' : Node} {env : Environment}

/-- A group takes as long as its longest sibling. -/
theorem Node.duration_of_siblings {children : List Node} (inside : node.siblings? = some children)
    (values : Named String) : node.duration values = Node.longest children values := by
  cases node with
  | element | group | head =>
    obtain rfl := Option.some.inj inside
    rfl
  | _ => cases inside

/-- If nothing fails in a group, nothing fails in its siblings. -/
theorem Node.succeedAll_of_siblings {children : List Node} (inside : node.siblings? = some children)
    (succeeds : node.Succeeds env) : Node.SucceedAll children env := by
  cases node with
  | element | group | head =>
    obtain rfl := Option.some.inj inside
    exact succeeds
  | _ => cases inside

/-- On its own, a tree in which nothing fails comes to its text in the time that it takes. -/
theorem Node.endsAlone (inPlace : env.deferral = none) (succeeds : node.Succeeds env) (start : Nat) :
    ((Built.node node).rendering env).EndsAlone start (.done (node.inlined env.values))
      (start + node.duration env.values) := by
  have comes := (Built.node node).comesTo inPlace succeeds start ""
  exact comes.endsAt ⟨List.nodup_nil, nofun, nofun, nofun⟩

/-- Siblings that are each on their own, and when the last of them ends. -/
theorem Node.exists_times (children : List Node) (inPlace : env.deferral = none)
    (succeed : Node.SucceedAll children env) (start : Nat) :
    ∃ times, List.Forall₂ (fun child time => ((Built.node child).rendering env).EndsAlone start
      (.done (child.inlined env.values)) time) children times ∧
        start + Node.longest children env.values = times.foldr max start := by
  induction children with
  | nil => exact ⟨[], .nil, rfl⟩
  | cons child rest ih =>
    obtain ⟨times, ends, latest⟩ := ih succeed.2
    refine ⟨_ :: times, .cons (Node.endsAlone inPlace succeed.1 start) ends, ?_⟩
    rw [List.foldr_cons, ← latest, Node.longest]
    omega

/-- Where nothing can be deferred, a tree in which nothing fails comes to the text in which every value
    stands as what it came to, and this text does not depend on the delays of the values (`node` and
    `node'` differ only in these).  It is there after the duration of the tree: siblings are there when the
    last of them is, however many they are.  The main task gets it then; the registry stays as it was, no
    slot is given out, and no fallback is called. -/
theorem Node.Retimed.rendered_inPlace (retimed : node.Retimed node') (inPlace : env.deferral = none)
    (succeeds : node'.Succeeds env) :
    (∀ start, ((Built.node node').rendering env).EndsAlone start (.done (node.inlined env.values))
      (start + node'.duration env.values)) ∧
    (∀ {w : EventLoop}, w.Alone → (∀ cell ∈ w.used, cell < w.cells) → ∀ turns {patience : Nat},
      node'.duration env.values ≤ patience → ∃ after,
        ((Built.node node').rendering env).runWithin turns patience w =
          (.ok (some (.ok (node.inlined env.values))), after) ∧
        after.now = w.now + node'.duration env.values ∧ w.NothingDeferred after) ∧
    ∀ {children}, node'.siblings? = some children → ∀ start, ∃ times,
      List.Forall₂ (fun child time => ((Built.node child).rendering env).EndsAlone start
        (.done (child.inlined env.values)) time) children times ∧
      start + node'.duration env.values = times.foldr max start := by
  rw [retimed.inlined]
  refine ⟨Node.endsAlone inPlace succeeds, @fun w alone numbered turns _ patient => ?_,
    fun inside start => ?_⟩
  · have comes := (Built.node node').comesTo inPlace succeeds w.now ""
    exact comes.runWithin ⟨List.nodup_nil, nofun, nofun, numbered⟩ alone turns
      (Nat.add_le_add_left patient _)
  · rw [Node.duration_of_siblings inside]
    exact Node.exists_times _ inPlace (Node.succeedAll_of_siblings inside succeeds) start

/-- The first of 31 siblings is the last to come: the markup stands in the order of the tree all the same,
    as it would if the second were the last. -/
theorem Node.rendered_inPlace_of_31_siblings :
    let late (length : Nat) (text : String) : Node :=
      .await { pace := .ofDelays "value" [length, 5] false, result := () } (.node (.markup text))
    let page (first second : Nat) : Node :=
      .group (late first "a" :: late second "b" :: List.replicate 29 (.markup "."))
    Node.Retimed (page 10 20) (page 20 10) ∧ ∃ after,
      ((Built.node (page 20 10)).rendering .empty).runWithin 0 100 {} =
        (.ok (some (.ok (String.join ("a" :: "b" :: List.replicate 29 ".")))), after) ∧
      after.now = 25 := by
  intro late page
  -- Nothing of the other 29 siblings takes any time.
  have others (n : Nat) : Node.SucceedAll (List.replicate n (.markup ".")) .empty ∧
      Node.inlinedAll (List.replicate n (.markup ".")) {} = List.replicate n "." ∧
      Node.longest (List.replicate n (.markup ".")) {} = 0 := by
    induction n with
    | zero => exact ⟨trivial, rfl, rfl⟩
    | succ n ih =>
      exact ⟨⟨trivial, ih.1⟩, congrArg ("." :: ·) ih.2.1, by
        simp [List.replicate_succ, Node.longest, Node.duration, ih.2.2]⟩
  have retimed : Node.Retimed (page 10 20) (page 20 10) :=
    .group (.cons (.await _ _ (.node (.same _))) (.cons (.await _ _ (.node (.same _))) (.same _)))
  have arrives (length : Nat) : Eventual.Arrives
      ({ pace := .ofDelays "value" [length, 5] false, result := () } : Eventual Unit) :=
    ⟨by simp [Pace.Unasked, Pace.ofDelays, Sleep.alarm?], rfl, rfl⟩
  have succeeds : (page 20 10).Succeeds .empty :=
    ⟨⟨arrives 20, trivial⟩, ⟨arrives 10, trivial⟩, (others 29).1⟩
  have text : (page 10 20).inlined {} = String.join ("a" :: "b" :: List.replicate 29 ".") :=
    congrArg (fun rest => String.join ("a" :: "b" :: rest)) (others 29).2.1
  have length : (page 20 10).duration {} = 25 := by
    show max 25 (max 15 (Node.longest (List.replicate 29 (.markup ".")) {})) = 25
    rw [(others 29).2.2]
    rfl
  obtain ⟨after, shown, now, -⟩ := (retimed.rendered_inPlace rfl succeeds).2.1 (w := {}) ⟨rfl, rfl⟩
    (fun _ used => absurd used List.not_mem_nil) 0
    (show (page 20 10).duration {} ≤ 100 by rw [length]; decide)
  rw [show Environment.empty.values = {} from rfl, text] at shown
  rw [show Environment.empty.values = {} from rfl, length] at now
  exact ⟨retimed, after, shown, now⟩

end ProgressiveHtml
