import ProgressiveHtml.Node

namespace ProgressiveHtml

/-!
# Nodes — trees with parts cut out

When a tree is rendered, the content of some of its fragments may be cut out: a placeholder with the
fallback stands where the content would, and the content comes as a patch of its own.  What is cut
out may have parts cut out again, and so may a fallback.

* `Part` — pieces of markup, some of them cut out, with `Part.shown` (what stands in place),
  `Part.inlined` (what would stand there if nothing were cut out) and `Part.patches`;
* `Node.inlined` — the text of a tree in which nothing is cut out;
* `Node.CutInto` — the ways of cutting parts out of a tree;
* `Node.CutInto.inlined` — cutting out does not change the content.
-/

/-- A piece of markup. -/
inductive Part where
  /-- Text that stands in place. -/
  | text (text : String)
  /-- The content of a fragment, cut out under a slot, and the fallback that stands in its place. -/
  | cut (slot : Nat) (fallback content : List Part)

namespace Part

mutual

/-- What stands in place. -/
def shown : Part → String
  | text written => written
  | cut slot fallback _ => Markup.placeholder (Markup.slotName slot) (shownAll fallback)

/-- What stands in place of all parts. -/
def shownAll : List Part → String
  | [] => ""
  | part :: rest => part.shown ++ shownAll rest

end

mutual

/-- What would stand there if nothing were cut out. -/
def inlined : Part → String
  | text written => written
  | cut _ _ content => inlinedAll content

/-- What all parts would be if nothing were cut out. -/
def inlinedAll : List Part → String
  | [] => ""
  | part :: rest => part.inlined ++ inlinedAll rest

end

mutual

/-- What was cut out, with its slots: what of it stands in its patch, and what was cut out of it and
    of the fallback. -/
def patches : Part → List (Nat × String)
  | text _ => []
  | cut slot fallback content =>
    (slot, shownAll content) :: (patchesAll content ++ patchesAll fallback)

/-- What was cut out of all parts. -/
def patchesAll : List Part → List (Nat × String)
  | [] => []
  | part :: rest => part.patches ++ patchesAll rest

end

/-- The parts of an element around the parts of its children. -/
def element (tag : String) (attributes : List Markup.Attribute) (children : List (List Part)) :
    List Part :=
  if children.isEmpty && Markup.isVoid tag then [text (Markup.openTag tag attributes)]
  else
    text (Markup.openTag tag attributes) :: (children.flatten ++ [text (Markup.closeTag tag)])

section

variable (parts more : List Part) (children : List (List Part))

@[simp] theorem shownAll_append : shownAll (parts ++ more) = shownAll parts ++ shownAll more := by
  induction parts with
  | nil => simp [shownAll]
  | cons part rest ih => simp [shownAll, ih, String.append_assoc]

@[simp] theorem inlinedAll_append :
    inlinedAll (parts ++ more) = inlinedAll parts ++ inlinedAll more := by
  induction parts with
  | nil => simp [inlinedAll]
  | cons part rest ih => simp [inlinedAll, ih, String.append_assoc]

@[simp] theorem patchesAll_append :
    patchesAll (parts ++ more) = patchesAll parts ++ patchesAll more := by
  induction parts with
  | nil => rfl
  | cons part rest ih => simp [patchesAll, ih]

@[simp] theorem shownAll_flatten :
    shownAll children.flatten = String.join (children.map shownAll) := by
  induction children with
  | nil => rfl
  | cons child rest ih => simp [ih, String.join_cons]

@[simp] theorem inlinedAll_flatten :
    inlinedAll children.flatten = String.join (children.map inlinedAll) := by
  induction children with
  | nil => rfl
  | cons child rest ih => simp [ih, String.join_cons]

@[simp] theorem patchesAll_flatten :
    patchesAll children.flatten = (children.map patchesAll).flatten := by
  induction children with
  | nil => rfl
  | cons child rest ih => simp [ih]

variable (tag : String) (attributes : List Markup.Attribute)

theorem shownAll_element :
    shownAll (element tag attributes children) =
      Markup.element tag attributes (children.map shownAll) := by
  unfold element Markup.element
  cases alone : children.isEmpty && Markup.isVoid tag <;>
    simp [alone, shownAll, shown, String.append_assoc]

theorem inlinedAll_element :
    inlinedAll (element tag attributes children) =
      Markup.element tag attributes (children.map inlinedAll) := by
  unfold element Markup.element
  cases alone : children.isEmpty && Markup.isVoid tag <;>
    simp [alone, inlinedAll, inlined, String.append_assoc]

theorem patchesAll_element :
    patchesAll (element tag attributes children) = (children.map patchesAll).flatten := by
  unfold element
  cases alone : children.isEmpty && Markup.isVoid tag with
  | true =>
    have none : children = [] := by simpa using (Bool.and_eq_true_iff.1 alone).1
    simp [none, patchesAll, patches]
  | false => simp [patchesAll, patches]

end

/-- Where nothing is cut out, all the content stands in place. -/
theorem shownAll_of_patchesAll_nil {parts : List Part} (whole : patchesAll parts = []) :
    shownAll parts = inlinedAll parts := by
  induction parts with
  | nil => rfl
  | cons part rest ih =>
    obtain ⟨here, later⟩ := List.append_eq_nil_iff.1 whole
    cases part with
    | text text => simp [shownAll, inlinedAll, shown, inlined, ih later]
    | cut => simp [patches] at here

end Part

/-! ### Trees with nothing cut out -/

mutual

/-- Trees whose failures are not shown as text, of which nothing is rendered twice, and which do not
    tell how many fragments are outstanding. -/
def Node.Regular : Node → Prop
  | .element _ _ children => Node.RegularAll children
  | .group children => Node.RegularAll children
  | .head _ children => Node.RegularAll children
  | .provide _ _ child => child.Regular
  | .consume _ build => ∀ value, (build value).Regular
  | .await _ content => content.Regular
  | .defer _ render fallback onError =>
    (∀ text, (render text).Regular) ∧ fallback.Regular ∧
      match onError with
      | none => True
      | some build => ∀ error, (build error).Regular
  | .again _ _ => False
  | .recover _ => False
  | .inspect _ => False
  | _ => True
termination_by structural node => node

/-- All trees of a list are regular. -/
def Node.RegularAll : List Node → Prop
  | [] => True
  | node :: rest => node.Regular ∧ Node.RegularAll rest
termination_by structural nodes => nodes

/-- What a callback built is regular. -/
def Built.Regular : Built → Prop
  | .node tree => tree.Regular
  | .panics _ => True
termination_by structural built => built

end

/-- A fragment is regular when all that it can show is. -/
theorem Node.regular_defer {value : Eventual (Except Chain String)} {render : String → Built}
    {fallback : Built} {onError : Option (Chain → Built)} :
    (Node.defer value render fallback onError).Regular ↔
      (∀ text, (render text).Regular) ∧ fallback.Regular ∧
        ∀ build, onError = some build → ∀ error, (build error).Regular := by
  cases onError <;> simp [Node.Regular]

mutual

/-- The text of a tree in which nothing is cut out, from the values visible to it. -/
def Node.inlined : Node → (values : Named String) → String
  | .markup written, _ => written
  | .text plain, _ => Markup.escape plain
  | .element tag attributes children, values =>
    Markup.element tag attributes (Node.inlinedAll children values)
  | .group children, values => String.join (Node.inlinedAll children values)
  | .head title children, values => headMarkup title ++ String.join (Node.inlinedAll children values)
  | .provide key value child, values => child.inlined (values.put key value)
  | .consume key build, values => (build (values.get? key)).inlined "" values
  | .await _ content, values => content.inlined "" values
  | .defer value render _ onError, values =>
    match value.result with
    | .ok text => (render text).inlined "" values
    | .error error =>
      match onError with
      | none => failureMarkup error.full
      | some build => (build error).inlined (failureMarkup error.full) values
  | _, _ => ""
termination_by structural node => node

/-- The texts of siblings. -/
def Node.inlinedAll : List Node → (values : Named String) → List String
  | [], _ => []
  | node :: rest, values => node.inlined values :: Node.inlinedAll rest values
termination_by structural nodes => nodes

/-- The text of what a callback built, and `instead` where it panicked. -/
def Built.inlined : Built → (instead : String) → (values : Named String) → String
  | .node tree, _, values => tree.inlined values
  | .panics _, instead, _ => instead
termination_by structural built => built

end

/-! ### Trees with parts cut out -/

mutual

/-- The ways of cutting parts out of a tree.  A fragment is cut out with all it contains, and only
    where fragments may be deferred. -/
def Node.CutInto : Node → Environment → List Part → Prop
  | .empty, _, parts => parts = []
  | .markup written, _, parts => parts = [.text written]
  | .text plain, _, parts => parts = [.text (Markup.escape plain)]
  | .element tag attributes children, env, parts =>
    ∃ inner, Node.CutIntoAll children env inner ∧ parts = Part.element tag attributes inner
  | .group children, env, parts =>
    ∃ inner, Node.CutIntoAll children env inner ∧ parts = inner.flatten
  | .head title children, env, parts =>
    ∃ inner, Node.CutIntoAll children env inner ∧ parts = .text (headMarkup title) :: inner.flatten
  | .provide key value child, env, parts => child.CutInto (env.add key value) parts
  | .consume key build, env, parts => (build (env.get? key)).CutInto none env parts
  | .await _ content, env, parts => content.CutInto none env parts
  | .defer value render fallback onError, env, parts =>
    let settled (parts : List Part) : Prop :=
      match value.result with
      | .ok text => (render text).CutInto none env parts
      | .error error =>
        match onError with
        | none => parts = [.text (failureMarkup error.full)]
        | some build => (build error).CutInto (some (failureMarkup error.full)) env parts
    settled parts ∨
      env.deferral.isSome ∧ ∃ slot instead content, fallback.CutInto none env instead ∧
        settled content ∧ parts = [.cut slot instead content]
  | _, _, _ => False
termination_by structural node => node

/-- The ways of cutting parts out of siblings. -/
def Node.CutIntoAll : List Node → Environment → List (List Part) → Prop
  | [], _, inner => inner = []
  | node :: rest, env, inner =>
    ∃ parts others, node.CutInto env parts ∧ Node.CutIntoAll rest env others ∧
      inner = parts :: others
termination_by structural nodes => nodes

/-- The ways of cutting parts out of what a callback built; `instead` is the text that stands there
    where it panicked, if that is no failure. -/
def Built.CutInto : Built → (instead : Option String) → Environment → List Part → Prop
  | .node tree, _, env, parts => tree.CutInto env parts
  | .panics _, instead, _, parts => ∃ text, instead = some text ∧ parts = [.text text]
termination_by structural built => built

end

/-- What a fragment shows once its value has settled. -/
structure Deferred where
  /-- The result of the value. -/
  result : Except Chain String
  /-- The callback for the value. -/
  render : String → Built
  /-- The callback for a failure, if there is one. -/
  onError : Option (Chain → Built)
  /-- The environment in which the fragment stands. -/
  env : Environment

/-- The ways of cutting parts out of what a fragment shows. -/
def Deferred.CutInto (d : Deferred) (parts : List Part) : Prop :=
  match d.result with
  | .ok text => (d.render text).CutInto none d.env parts
  | .error error =>
    match d.onError with
    | none => parts = [.text (failureMarkup error.full)]
    | some build => (build error).CutInto (some (failureMarkup error.full)) d.env parts

/-- A fragment stands in place, or it is cut out. -/
theorem Node.cutInto_defer {value : Eventual (Except Chain String)} {render : String → Built}
    {fallback : Built} {onError : Option (Chain → Built)} {env : Environment} {parts : List Part} :
    (Node.defer value render fallback onError).CutInto env parts ↔
      Deferred.CutInto ⟨value.result, render, onError, env⟩ parts ∨
        env.deferral.isSome ∧ ∃ slot instead content, fallback.CutInto none env instead ∧
          Deferred.CutInto ⟨value.result, render, onError, env⟩ content ∧
          parts = [.cut slot instead content] := by
  cases onError <;> exact Iff.rfl

mutual

/-- Cutting parts out of a tree does not change its content. -/
theorem Node.CutInto.inlined (node : Node) {env : Environment} {parts : List Part}
    (cut : node.CutInto env parts) : Part.inlinedAll parts = node.inlined env.values := by
  cases node with
  | empty | markup | text =>
    obtain rfl := cut
    simp [Part.inlinedAll, Part.inlined, Node.inlined]
  | element tag attributes children =>
    obtain ⟨inner, cutAll, rfl⟩ := cut
    rw [Part.inlinedAll_element, Node.CutIntoAll.inlined children cutAll]
    rfl
  | group children =>
    obtain ⟨inner, cutAll, rfl⟩ := cut
    rw [Part.inlinedAll_flatten, Node.CutIntoAll.inlined children cutAll]
    rfl
  | head title children =>
    obtain ⟨inner, cutAll, rfl⟩ := cut
    rw [Part.inlinedAll, Part.inlinedAll_flatten, Node.CutIntoAll.inlined children cutAll]
    rfl
  | provide key value child => exact Node.CutInto.inlined child cut
  | consume key build => exact Built.CutInto.inlined (build _) cut
  | await value content => exact Built.CutInto.inlined content cut
  | defer value render fallback onError =>
    -- What is cut out of a deferrable node is cut out of what it shows, in its place or in its patch.
    have whole {inner : List Part}
        (settled : Deferred.CutInto ⟨value.result, render, onError, env⟩ inner) :
        Part.inlinedAll inner =
          (Node.defer value render fallback onError).inlined env.values := by
      rw [Node.inlined]
      cases result : value.result with
      | ok text =>
        simp only [Deferred.CutInto, result] at settled
        exact Built.CutInto.inlined (render text) settled
      | error error =>
        simp only [Deferred.CutInto, result] at settled
        cases onError with
        | none =>
          obtain rfl := settled
          simp [Part.inlinedAll, Part.inlined]
        | some build => exact Built.CutInto.inlined (build error) settled
    obtain settled | ⟨-, slot, instead, content, -, settled, rfl⟩ :=
      Node.cutInto_defer.1 cut
    · exact whole settled
    · simpa [Part.inlinedAll, Part.inlined] using whole settled
  | fail | panics | again | recover | inspect => exact cut.elim
termination_by structural node

theorem Node.CutIntoAll.inlined (nodes : List Node) {env : Environment} {inner : List (List Part)}
    (cut : Node.CutIntoAll nodes env inner) :
    inner.map Part.inlinedAll = Node.inlinedAll nodes env.values := by
  cases nodes with
  | nil =>
    obtain rfl := cut
    rfl
  | cons node rest =>
    obtain ⟨parts, others, here, later, rfl⟩ := cut
    rw [List.map_cons, Node.CutInto.inlined node here, Node.CutIntoAll.inlined rest later]
    rfl
termination_by structural nodes

theorem Built.CutInto.inlined (built : Built) {instead : Option String} {env : Environment}
    {parts : List Part} (cut : built.CutInto instead env parts) :
    Part.inlinedAll parts = built.inlined (instead.getD "") env.values := by
  cases built with
  | node tree => exact Node.CutInto.inlined tree cut
  | panics message =>
    obtain ⟨text, rfl, rfl⟩ := cut
    simp [Part.inlinedAll, Part.inlined, Built.inlined]
termination_by structural built

end

end ProgressiveHtml
