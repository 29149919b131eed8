import ProgressiveHtml.Node

namespace ProgressiveHtml

/-!
# Content — authored descriptions of nodes

Authors describe a page as data: a `Content` says which nodes to build, with holes for the value
that a fragment shows and for the failure it reports.  Building fills the holes from the `Scope`
of the callback in which the description stands.

* `Content`, `Scope` — descriptions, and what their holes stand for;
* `Content.build` — the node that is described, or the panic that building it ends with.
-/

/-- What the holes of a description stand for. -/
structure Scope where
  /-- The value of the innermost fragment whose result is being shown. -/
  value : Option String := none
  /-- The failure of the innermost fragment whose failure is being shown. -/
  error : Option Chain := none

/-- An authored description of a node. -/
inductive Content where
  | empty
  | markup (text : String)
  | text (text : String)
  | element (tag : String) (attributes : List Markup.Attribute) (children : List Content)
  | group (children : List Content)
  /-- The child inside `depth` nested elements. -/
  | nest (depth : Nat) (tag : String) (child : Content)
  | head (title : String) (children : List Content)
  | provide (key value : String) (child : Content)
  /-- The visible value of a key as text, or `absent` where none is visible. -/
  | consume (key : String) (absent : Content)
  | await (value : Eventual Unit) (content : Content)
  | defer (value : Eventual (Except Chain String)) (render fallback : Content)
      (onError : Option Content)
  /-- The value of the scope as text. -/
  | value
  /-- The value of the scope as markup. -/
  | valueMarkup
  /-- The failure of the scope, its outermost message. -/
  | error
  /-- The failure of the scope, all its messages. -/
  | errorChain
  /-- The built-in node for a failure with the given message. -/
  | failure (message : String)
  | fail (error : RenderError)
  | panics (message : String)
  /-- Building this panics. -/
  | unbuildable (message : String)
  | again (count : Nat) (child : Content)
  | recover (child : Content)
  | inspect (keys : List String)

/-- A hole: what fills it, or nothing. -/
def Scope.hole {α : Type} (filling : Option α) (show? : α → Node) : Node :=
  (filling.map show?).getD .empty

mutual

/-- Build the node that is described.  Subtrees built by callbacks are built when these are
    called. -/
def Content.build : Content → Scope → Except String Node
  | .empty, _ => .ok .empty
  | .markup written, _ => .ok (.markup written)
  | .text plain, _ => .ok (.text plain)
  | .element tag attributes children, scope =>
    (Content.buildAll children scope).map (.element tag attributes)
  | .group children, scope => (Content.buildAll children scope).map .group
  | .nest depth tag child, scope => (child.build scope).map (Node.nest tag depth)
  | .head title children, scope => (Content.buildAll children scope).map (.head title)
  | .provide key visible child, scope => (child.build scope).map (.provide key visible)
  | .consume key absent, scope =>
    .ok <| .consume key fun visible =>
      match visible with
      | some shown => .node (.text shown)
      | none => .ofExcept (absent.build scope)
  | .await eventual content, scope => .ok (.await eventual (.ofExcept (content.build scope)))
  | .defer eventual render fallback onError, scope =>
    .ok <| .defer eventual
      (fun shown => .ofExcept (render.build { scope with value := some shown }))
      (.ofExcept (fallback.build scope))
      (match onError with
        | none => none
        | some content => some fun chain =>
          .ofExcept (content.build { scope with error := some chain }))
  | .value, scope => .ok (Scope.hole scope.value .text)
  | .valueMarkup, scope => .ok (Scope.hole scope.value .markup)
  | .error, scope => .ok (Scope.hole scope.error fun chain => .text chain.message)
  | .errorChain, scope => .ok (Scope.hole scope.error fun chain => .text chain.full)
  | .failure message, _ => .ok (.failure message)
  | .fail reason, _ => .ok (.fail reason)
  | .panics message, _ => .ok (.panics message)
  | .unbuildable message, _ => .error message
  | .again count child, scope => (child.build scope).map (.again count)
  | .recover child, scope => (child.build scope).map .recover
  | .inspect keys, _ => .ok (.inspect keys)
termination_by structural content => content

/-- Build siblings in order; the first panic ends it. -/
def Content.buildAll : List Content → Scope → Except String (List Node)
  | [], _ => .ok []
  | content :: rest, scope =>
    match content.build scope with
    | .error message => .error message
    | .ok tree => (Content.buildAll rest scope).map (tree :: ·)
termination_by structural contents => contents

end

end ProgressiveHtml
