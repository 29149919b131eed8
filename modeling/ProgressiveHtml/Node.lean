import ProgressiveHtml.Environment
import ProgressiveHtml.Fragment

namespace ProgressiveHtml

/-!
# Nodes — trees that render to markup

A document is a tree of nodes.  Some nodes are built only while the tree is rendered, by callbacks
that get a visible value, the result of an eventual value or a failure; building may panic.

* `Node`, `Built` — the trees, and what building one comes to;
* `Node.cells` — how many contents of a tree can be used only once;
* `Node.rendering` — rendering a tree in an environment;
* `Node.fragments` — how many fragments a tree can hand to the registry.
-/

mutual

/-- A subtree that can be rendered to markup. -/
inductive Node where
  /-- Nothing. -/
  | empty
  /-- Trusted markup, written as it is. -/
  | markup (text : String)
  /-- Text, escaped. -/
  | text (text : String)
  /-- An element with attributes and children. -/
  | element (tag : String) (attributes : List Markup.Attribute) (children : List Node)
  /-- Siblings without an element around them. -/
  | group (children : List Node)
  /-- The default content of the head: charset, viewport and title, then the children. -/
  | head (title : String) (children : List Node)
  /-- A subtree to which a value is visible. -/
  | provide (key value : String) (child : Node)
  /-- A subtree built from the visible value of a key. -/
  | consume (key : String) (build : Option String → Built)
  /-- A subtree that is known only once a value has settled.  It can be rendered once. -/
  | await (value : Eventual Unit) (content : Built)
  /-- A fragment that may be deferred: the value, and the callbacks for its result, for the fallback
      and for a failure.  It can be rendered once. -/
  | defer (value : Eventual (Except Chain String)) (render : String → Built) (fallback : Built)
      (onError : Option (Chain → Built))
  /-- A node whose rendering fails. -/
  | fail (error : RenderError)
  /-- A node whose rendering panics. -/
  | panics (message : String)
  /-- A node rendered several times in a row. -/
  | again (count : Nat) (child : Node)
  /-- A node whose failure is shown as text. -/
  | recover (child : Node)
  /-- A description of the environment, with the values of the given keys. -/
  | inspect (keys : List String)

/-- What building a node comes to. -/
inductive Built where
  | node (node : Node)
  | panics (message : String)

end

/-- What building a node came to, given as a result. -/
def Built.ofExcept : Except String Node → Built
  | .ok tree => .node tree
  | .error message => .panics message

/-- The built-in node for a failure. -/
def Node.failure (message : String) : Node :=
  .element "div" [("class", "deferred-error")] [.text message]

/-- A node inside the given number of nested elements. -/
def Node.nest (tag : String) : Nat → Node → Node
  | 0, node => node
  | depth + 1, node => .element tag [] [Node.nest tag depth node]

mutual

/-- How many contents of a tree can be used only once.  Those of subtrees that are built later are
    not among them. -/
def Node.cells : Node → Nat
  | .element _ _ children => Node.cellsOfAll children
  | .group children => Node.cellsOfAll children
  | .head _ children => Node.cellsOfAll children
  | .provide _ _ child => child.cells
  | .await .. => 1
  | .defer .. => 1
  | .again _ child => child.cells
  | .recover child => child.cells
  | _ => 0

/-- How many contents of a list of trees can be used only once. -/
def Node.cellsOfAll : List Node → Nat
  | [] => 0
  | node :: rest => node.cells + Node.cellsOfAll rest

end

/-- The default content of the head in front of its children. -/
def headMarkup (title : String) : String :=
  "<meta charset=\"UTF-8\">"
    ++ "<meta name=\"viewport\" content=\"width=device-width, initial-scale=1.0\">"
    ++ "<title>" ++ Markup.escape title ++ "</title>"

/-- A failure shown as text. -/
def recoveredMarkup (error : RenderError) : String :=
  "[" ++ error.kind ++ ": " ++ error.message ++ "]"

/-- A flag as a word. -/
def writeFlag (flag : Bool) : String :=
  if flag then "true" else "false"

/-- A description of an environment: how many values are visible, those of the given keys, and the
    right to defer with the number of outstanding fragments. -/
def Environment.inspection (env : Environment) (keys : List String) (slots : String) : String :=
  let value (key : String) := " " ++ key ++ "=" ++ (env.get? key).getD "-"
  "(len=" ++ env.size.repr ++ " empty=" ++ writeFlag env.isEmpty
    ++ String.join (keys.map value) ++ " slots=" ++ slots ++ ")"

mutual

/-- Render a tree whose contents are numbered from `first`. -/
def Node.rendering : Node → Environment → (first : Nat) → Rendering
  | .empty, _, _ => .done ""
  | .markup written, _, _ => .done written
  | .text plain, _, _ => .done (Markup.escape plain)
  | .element tag attributes children, env, first =>
    .join (Node.renderings children env first) fun markup =>
      .done (Markup.element tag attributes markup)
  | .group children, env, first => .group (Node.renderings children env first)
  | .head title children, env, first =>
    .join (Node.renderings children env first) fun markup =>
      .done (headMarkup title ++ String.join markup)
  | .provide key value child, env, first => child.rendering (env.add key value) first
  | .consume key build, env, _ => (build (env.get? key)).rendering env
  | .await value content, env, first =>
    .claim first <| .wait (value.numbered first).pace <|
      value.conclude fun _ => content.rendering env
  | .defer value render fallback onError, env, first =>
    let fragment : Fragment :=
      { value := value.numbered first
        shown := fun text => (render text).rendering env
        onError :=
          match onError with
          | none => none
          | some build => some fun error => (build error).rendering? env }
    .claim first <| fragment.rendering (fallback.rendering env) env.deferral
  | .fail error, _, _ => .failed error
  | .panics message, _, _ => .panicked message
  | .again count child, env, first => .times count (child.rendering env first)
  | .recover child, env, first =>
    .attempt (child.rendering env first) fun result =>
      match result with
      | .ok markup => .done markup
      | .error error => .done (recoveredMarkup error)
  | .inspect keys, env, _ =>
    match env.deferral with
    | none => .done (env.inspection keys "-")
    | some timeout => .outstanding fun pending =>
      .done (env.inspection keys (timeout.repr ++ "ms/" ++ pending.repr))
termination_by structural node => node

/-- Render siblings whose contents are numbered from `first`. -/
def Node.renderings : List Node → Environment → (first : Nat) → List Rendering
  | [], _, _ => []
  | node :: rest, env, first =>
    node.rendering env first :: Node.renderings rest env (first + node.cells)
termination_by structural nodes => nodes

/-- Render what a callback built: its contents get numbers of their own. -/
def Built.rendering : Built → Environment → Rendering
  | .node tree, env => .number tree.cells fun first => tree.rendering env first
  | .panics message, _ => .panicked message
termination_by structural built => built

/-- Render what a callback built, if it did not panic. -/
def Built.rendering? : Built → Environment → Option Rendering
  | .node tree, env => some (.number tree.cells fun first => tree.rendering env first)
  | .panics _, _ => none
termination_by structural built => built

end

mutual

/-- A bound on the fragments that the rendering of a tree can hand to the registry, those of the
    subtrees built on the way included. -/
def Node.fragments : Node → Environment → Nat
  | .element _ _ children, env => Node.fragmentsOfAll children env
  | .group children, env => Node.fragmentsOfAll children env
  | .head _ children, env => Node.fragmentsOfAll children env
  | .provide key value child, env => child.fragments (env.add key value)
  | .consume key build, env => (build (env.get? key)).fragments env
  | .await _ content, env => content.fragments env
  | .defer value render fallback onError, env =>
    1 + fallback.fragments env +
      match value.result with
      | .ok text => (render text).fragments env
      | .error error =>
        match onError with
        | none => 0
        | some build => (build error).fragments env
  | .again count child, env => count * child.fragments env
  | .recover child, env => child.fragments env
  | _, _ => 0
termination_by structural node => node

/-- The bound for a list of trees. -/
def Node.fragmentsOfAll : List Node → Environment → Nat
  | [], _ => 0
  | node :: rest, env => node.fragments env + Node.fragmentsOfAll rest env
termination_by structural nodes => nodes

/-- The bound for what a callback built. -/
def Built.fragments : Built → Environment → Nat
  | .node tree, env => tree.fragments env
  | .panics _, _ => 0
termination_by structural built => built

end

end ProgressiveHtml
