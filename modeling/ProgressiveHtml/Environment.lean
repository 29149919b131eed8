import ProgressiveHtml.Named

namespace ProgressiveHtml

/-!
# Environment — what a subtree can see

An environment holds at most one text for each key.  Adding a value shadows the earlier one of the
same key and leaves the environment it was added to as it was.  Inside the body of a document it
also holds the right to defer: the time that a fragment may take before it is deferred.  That
right counts as one more visible value.  It has no key: nothing that is provided can shadow it, and
nothing that looks up a key can find it.

* `add`, `get?`, `contains`, `size` — the operations;
* `get?_add` — a look-up after `add`.
-/

/-- The values visible to a subtree. -/
structure Environment where
  /-- Visible texts by their keys. -/
  values : Named String := {}
  /-- How many milliseconds a fragment may take here before it is deferred; `none` where nothing
      can be deferred.  Nodes that provide a value or consume one do not reach this field. -/
  deferral : Option Nat := none
  deriving DecidableEq

namespace Environment

/-- The environment in which nothing is visible. -/
def empty : Environment := {}

/-- Make a value visible, in place of an earlier one of the same key. -/
def add (env : Environment) (key value : String) : Environment :=
  { env with values := env.values.put key value }

/-- Let fragments be deferred once they have taken `timeout` milliseconds. -/
def deferringAfter (env : Environment) (timeout : Nat) : Environment :=
  { env with deferral := some timeout }

/-- The visible value of a key. -/
def get? (env : Environment) (key : String) : Option String :=
  env.values.get? key

/-- Whether a value of the key is visible. -/
def contains (env : Environment) (key : String) : Bool :=
  (env.get? key).isSome

/-- The number of visible values. -/
def size (env : Environment) : Nat :=
  env.values.size + if env.deferral.isSome then 1 else 0

/-- Whether nothing is visible. -/
def isEmpty (env : Environment) : Bool :=
  env.size == 0

/-- Short text for logs: how many values are visible, and none of them. -/
def describe (env : Environment) : String :=
  "Environment \x7b values: " ++ env.size.repr ++ " \x7d"

/-- The environment with the given values, added in order. -/
def ofList (values : List (String × String)) : Environment where
  values := .ofList values

/-- A look-up finds the value added last, and otherwise what was visible before. -/
@[simp] theorem get?_add (env : Environment) (key value other : String) :
    (env.add key value).get? other = if other = key then some value else env.get? other :=
  env.values.get?_put key other value

end Environment

/-- One way to make an environment out of those made before. -/
inductive Environment.Step where
  /-- Add a value to environment number `source`. -/
  | add (source : Nat) (key value : String)
  /-- Copy environment number `source`. -/
  | copy (source : Nat)
  /-- Start afresh. -/
  | fresh
  deriving DecidableEq

namespace Environment

/-- The environment made by one step from those made before. -/
def Step.make (made : List Environment) : Step → Environment
  | .add source key value => ((made[source]?).getD empty).add key value
  | .copy source => (made[source]?).getD empty
  | .fresh => empty

/-- All environments made, beginning with the empty one, in order.  None of them changes when a
    later one is made from it. -/
def derive (steps : List Step) : List Environment :=
  steps.foldl (fun made step => made ++ [step.make made]) [empty]

end Environment

end ProgressiveHtml
