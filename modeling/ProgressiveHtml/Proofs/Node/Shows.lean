import Mathlib.Algebra.Order.Group.Multiset
import Mathlib.Data.Multiset.Bind
import ProgressiveHtml.Proofs.Node.Parts

namespace ProgressiveHtml

/-!
# Nodes — what the rendering of a tree comes to

The rendering of a tree comes to a text and hands in fragments on the way.  What was handed in is not
known to the rendering any more; it is filled in when all fragments are complete.

* `Cut`, `Outcome` — a fragment that was handed in, and what a rendering comes to;
* `Node.Shows` — what the rendering of a tree may come to;
* `Node.Shows.cutInto` — filling in the contents gives the tree with parts cut out;
* `Node.Shows.whole` — where nothing can be deferred the rendering comes to the text of the tree.
-/

/-- A fragment that was handed in under a slot. -/
structure Cut where
  slot : Nat
  content : Deferred

/-- What a rendering comes to: the text that stands in place, and the fragments handed in. -/
structure Outcome where
  text : String
  cuts : Multiset Cut := 0

/-- The texts of siblings, and all their fragments. -/
def Outcome.texts (inner : List Outcome) : List String := inner.map (·.text)

@[inherit_doc Outcome.texts]
def Outcome.allCuts (inner : List Outcome) : Multiset Cut := (inner.map (·.cuts)).sum

mutual

/-- What the rendering of a tree may come to. -/
def Node.Shows : Node → Environment → Outcome → Prop
  | .empty, _, o => o = { text := "" }
  | .markup written, _, o => o = { text := written }
  | .text plain, _, o => o = { text := Markup.escape plain }
  | .element tag attributes children, env, o =>
    ∃ inner, Node.ShowsAll children env inner ∧
      o = ⟨Markup.element tag attributes (Outcome.texts inner), Outcome.allCuts inner⟩
  | .group children, env, o =>
    ∃ inner, Node.ShowsAll children env inner ∧
      o = ⟨String.join (Outcome.texts inner), Outcome.allCuts inner⟩
  | .head title children, env, o =>
    ∃ inner, Node.ShowsAll children env inner ∧
      o = ⟨headMarkup title ++ String.join (Outcome.texts inner), Outcome.allCuts inner⟩
  | .provide key value child, env, o => child.Shows (env.add key value) o
  | .consume key build, env, o => (build (env.get? key)).Shows none env o
  | .await _ content, env, o => content.Shows none env o
  | .defer value render fallback onError, env, o =>
    (match value.result with
      | .ok text => (render text).Shows none env o
      | .error error =>
        match onError with
        | none => o = { text := failureMarkup error.full }
        | some build => (build error).Shows (some (failureMarkup error.full)) env o) ∨
      env.deferral.isSome ∧ ∃ slot instead, fallback.Shows none env instead ∧
        o = ⟨Markup.placeholder (Markup.slotName slot) instead.text,
          ⟨slot, value.result, render, onError, env⟩ ::ₘ instead.cuts⟩
  | _, _, _ => False
termination_by structural node => node

/-- What the renderings of siblings may come to. -/
def Node.ShowsAll : List Node → Environment → List Outcome → Prop
  | [], _, inner => inner = []
  | node :: rest, env, inner =>
    ∃ o others, node.Shows env o ∧ Node.ShowsAll rest env others ∧ inner = o :: others
termination_by structural nodes => nodes

/-- What the rendering of what a callback built may come to; `instead` is the text that stands there
    where it panicked, if that is no failure. -/
def Built.Shows : Built → (instead : Option String) → Environment → Outcome → Prop
  | .node tree, _, env, o => tree.Shows env o
  | .panics _, instead, _, o => ∃ text, instead = some text ∧ o = { text }
termination_by structural built => built

end

/-- What the rendering of what a fragment shows may come to. -/
def Deferred.Shows (d : Deferred) (o : Outcome) : Prop :=
  match d.result with
  | .ok text => (d.render text).Shows none d.env o
  | .error error =>
    match d.onError with
    | none => o = { text := failureMarkup error.full }
    | some build => (build error).Shows (some (failureMarkup error.full)) d.env o

/-- A fragment shows its content, or a placeholder stands for it. -/
theorem Node.shows_defer {value : Eventual (Except Chain String)} {render : String → Built}
    {fallback : Built} {onError : Option (Chain → Built)} {env : Environment} {o : Outcome} :
    (Node.defer value render fallback onError).Shows env o ↔
      Deferred.Shows ⟨value.result, render, onError, env⟩ o ∨
        env.deferral.isSome ∧ ∃ slot instead, fallback.Shows none env instead ∧
          o = ⟨Markup.placeholder (Markup.slotName slot) instead.text,
            ⟨slot, value.result, render, onError, env⟩ ::ₘ instead.cuts⟩ := by
  cases onError <;> exact Iff.rfl

/-! ### Filling in -/

/-- What is cut out with a fragment whose content is filled in. -/
def Cut.patches (fill : Nat → List Part) (cut : Cut) : Multiset (Nat × String) :=
  (cut.slot, Part.shownAll (fill cut.slot)) ::ₘ (Part.patchesAll (fill cut.slot) : Multiset _)

/-- Parts that an outcome comes to when the contents of its fragments are filled in. -/
structure Outcome.FilledBy (fill : Nat → List Part) (o : Outcome) (parts : List Part) : Prop where
  text : Part.shownAll parts = o.text
  patches : (Part.patchesAll parts : Multiset _) = o.cuts.bind (Cut.patches fill)

/-- Text is filled as it is. -/
theorem Outcome.FilledBy.ofText (fill : Nat → List Part) (text : String) :
    Outcome.FilledBy fill { text } [.text text] where
  text := by simp [Part.shownAll, Part.shown]
  patches := by simp [Part.patchesAll, Part.patches]

/-- Only what is filled in for the fragments of an outcome matters. -/
theorem Outcome.FilledBy.congr {fill fill' : Nat → List Part} {o : Outcome} {parts : List Part}
    (filled : o.FilledBy fill parts) (same : ∀ cut ∈ o.cuts, fill cut.slot = fill' cut.slot) :
    o.FilledBy fill' parts where
  text := filled.text
  patches := by
    rw [filled.patches]
    exact Multiset.bind_congr fun cut member => by simp only [Cut.patches, same cut member]

/-- Siblings are filled one by one. -/
theorem Outcome.filledBy_all {fill : Nat → List Part} {inner : List Outcome}
    {parts : List (List Part)} (filled : List.Forall₂ (Outcome.FilledBy fill) inner parts) :
    parts.map Part.shownAll = Outcome.texts inner ∧
      (((parts.map Part.patchesAll).flatten : List _) : Multiset _) =
        (Outcome.allCuts inner).bind (Cut.patches fill) := by
  induction filled with
  | nil => exact ⟨rfl, rfl⟩
  | @cons o part inner parts here _ ih =>
    obtain ⟨texts, patches⟩ := ih
    constructor
    · rw [List.map_cons, texts, here.text]
      rfl
    · show _ = ((o.cuts + Outcome.allCuts inner).bind (Cut.patches fill))
      rw [Multiset.add_bind, ← here.patches, ← patches]
      rfl

/-- Whether all fragments among the cuts are filled with parts of what they show. -/
def Solves (fill : Nat → List Part) (cuts : Multiset Cut) : Prop :=
  ∀ cut ∈ cuts, cut.content.CutInto (fill cut.slot)

mutual

/-- Filling in the contents of what was handed in gives the tree with parts cut out. -/
theorem Node.Shows.cutInto (node : Node) {env : Environment} {o : Outcome}
    (shows : node.Shows env o) {fill : Nat → List Part} (solves : Solves fill o.cuts) :
    ∃ parts, node.CutInto env parts ∧ o.FilledBy fill parts := by
  cases node with
  | empty =>
    obtain rfl := shows
    exact ⟨[], rfl, rfl, rfl⟩
  | markup | text =>
    obtain rfl := shows
    exact ⟨_, rfl, .ofText fill _⟩
  | element tag attributes children =>
    obtain ⟨inner, showsAll, rfl⟩ := shows
    obtain ⟨parts, cutInto, filled⟩ := Node.ShowsAll.cutInto children showsAll solves
    obtain ⟨texts, patches⟩ := Outcome.filledBy_all filled
    refine ⟨_, ⟨parts, cutInto, rfl⟩, ?_, ?_⟩
    · rw [Part.shownAll_element, texts]
    · rw [Part.patchesAll_element, patches]
  | group children =>
    obtain ⟨inner, showsAll, rfl⟩ := shows
    obtain ⟨parts, cutInto, filled⟩ := Node.ShowsAll.cutInto children showsAll solves
    obtain ⟨texts, patches⟩ := Outcome.filledBy_all filled
    refine ⟨_, ⟨parts, cutInto, rfl⟩, ?_, ?_⟩
    · rw [Part.shownAll_flatten, texts]
    · rw [Part.patchesAll_flatten, patches]
  | head title children =>
    obtain ⟨inner, showsAll, rfl⟩ := shows
    obtain ⟨parts, cutInto, filled⟩ := Node.ShowsAll.cutInto children showsAll solves
    obtain ⟨texts, patches⟩ := Outcome.filledBy_all filled
    refine ⟨_, ⟨parts, cutInto, rfl⟩, ?_, ?_⟩
    · rw [Part.shownAll, Part.shownAll_flatten, texts]
      rfl
    · rw [Part.patchesAll, Part.patchesAll_flatten]
      exact patches
  | provide key value child => exact Node.Shows.cutInto child shows solves
  | consume key build => exact Built.Shows.cutInto (build _) shows solves
  | await value content => exact Built.Shows.cutInto content shows solves
  | defer value render fallback onError =>
    obtain settled | ⟨deferring, slot, instead, showsInstead, rfl⟩ :=
      Node.shows_defer.1 shows
    · -- The value is in time, so what its callback rendered stands in its place.
      have cutInto : ∃ parts, Deferred.CutInto ⟨value.result, render, onError, env⟩ parts ∧
          o.FilledBy fill parts := by
        cases result : value.result with
        | ok text =>
          simp only [Deferred.Shows, Deferred.CutInto, result] at settled ⊢
          exact Built.Shows.cutInto (render text) settled solves
        | error error =>
          simp only [Deferred.Shows, Deferred.CutInto, result] at settled ⊢
          cases onError with
          | none =>
            obtain rfl := settled
            exact ⟨_, rfl, .ofText fill _⟩
          | some build => exact Built.Shows.cutInto (build error) settled solves
      obtain ⟨parts, cutInto, filled⟩ := cutInto
      exact ⟨parts, Node.cutInto_defer.2 (.inl cutInto), filled⟩
    · -- The fragment itself is filled in, and so are the fragments of its fallback.
      have solvesInstead : Solves fill instead.cuts :=
        fun cut member => solves cut (Multiset.mem_cons_of_mem member)
      obtain ⟨parts, cutInto, filled⟩ :=
        Built.Shows.cutInto fallback showsInstead solvesInstead
      have content := solves _ (Multiset.mem_cons_self _ _)
      refine ⟨[.cut slot parts (fill slot)],
        Node.cutInto_defer.2 (.inr ⟨deferring, slot, parts, _, cutInto, content, rfl⟩), ?_, ?_⟩
      · simp [Part.shownAll, Part.shown, filled.text]
      · rw [Multiset.cons_bind, ← filled.patches]
        simp [Part.patchesAll, Part.patches, Cut.patches]
  | fail | panics | again | recover | inspect => exact shows.elim
termination_by structural node

theorem Node.ShowsAll.cutInto (nodes : List Node) {env : Environment} {inner : List Outcome}
    (shows : Node.ShowsAll nodes env inner) {fill : Nat → List Part}
    (solves : Solves fill (Outcome.allCuts inner)) :
    ∃ parts, Node.CutIntoAll nodes env parts ∧ List.Forall₂ (Outcome.FilledBy fill) inner parts := by
  cases nodes with
  | nil =>
    obtain rfl := shows
    exact ⟨[], rfl, .nil⟩
  | cons node rest =>
    obtain ⟨o, others, here, later, rfl⟩ := shows
    have solvesHere : Solves fill o.cuts :=
      fun cut member => solves cut (Multiset.mem_add.2 (.inl member))
    have solvesLater : Solves fill (Outcome.allCuts others) :=
      fun cut member => solves cut (Multiset.mem_add.2 (.inr member))
    obtain ⟨parts, cutInto, filled⟩ := Node.Shows.cutInto node here solvesHere
    obtain ⟨more, cutIntoAll, filledAll⟩ := Node.ShowsAll.cutInto rest later solvesLater
    exact ⟨_, ⟨parts, more, cutInto, cutIntoAll, rfl⟩, .cons filled filledAll⟩
termination_by structural nodes

theorem Built.Shows.cutInto (built : Built) {instead : Option String} {env : Environment}
    {o : Outcome} (shows : built.Shows instead env o) {fill : Nat → List Part}
    (solves : Solves fill o.cuts) :
    ∃ parts, built.CutInto instead env parts ∧ o.FilledBy fill parts := by
  cases built with
  | node tree => exact Node.Shows.cutInto tree shows solves
  | panics message =>
    obtain ⟨text, rfl, rfl⟩ := shows
    exact ⟨_, ⟨text, rfl, rfl⟩, .ofText fill text⟩
termination_by structural built

end

/-- So does filling in what a late fragment handed in. -/
theorem Deferred.Shows.cutInto {d : Deferred} {o : Outcome} (shows : d.Shows o)
    {fill : Nat → List Part} (solves : Solves fill o.cuts) :
    ∃ parts, d.CutInto parts ∧ o.FilledBy fill parts := by
  obtain ⟨result, render, onError, env⟩ := d
  cases result with
  | ok text => exact Built.Shows.cutInto (render text) shows solves
  | error error =>
    cases onError with
    | none =>
      obtain rfl := shows
      exact ⟨_, rfl, .ofText fill _⟩
    | some build => exact Built.Shows.cutInto (build error) shows solves

/-! ### Where nothing can be deferred -/

mutual

/-- Where nothing can be deferred nothing is handed in. -/
theorem Node.Shows.inline (node : Node) {env : Environment} (inline : env.deferral = none)
    {o : Outcome} (shows : node.Shows env o) : o.cuts = 0 := by
  cases node with
  | empty | markup | text =>
    obtain rfl := shows
    rfl
  | element | group | head =>
    obtain ⟨inner, showsAll, rfl⟩ := shows
    exact Node.ShowsAll.inline _ inline showsAll
  | provide key value child =>
    have still : (env.add key value).deferral = none := inline
    exact Node.Shows.inline child still shows
  | consume key build => exact Built.Shows.inline (build _) inline shows
  | await value content => exact Built.Shows.inline content inline shows
  | defer value render fallback onError =>
    obtain settled | ⟨deferring, -⟩ := Node.shows_defer.1 shows
    · cases result : value.result with
      | ok text =>
        simp only [Deferred.Shows, result] at settled
        exact Built.Shows.inline (render text) inline settled
      | error error =>
        simp only [Deferred.Shows, result] at settled
        cases onError with
        | none =>
          obtain rfl := settled
          rfl
        | some build => exact Built.Shows.inline (build error) inline settled
    · -- Nothing is deferred, so that the second case cannot be.
      rw [inline] at deferring
      cases deferring
  | fail | panics | again | recover | inspect => exact shows.elim
termination_by structural node

theorem Node.ShowsAll.inline (nodes : List Node) {env : Environment}
    (inline : env.deferral = none) {inner : List Outcome}
    (shows : Node.ShowsAll nodes env inner) : Outcome.allCuts inner = 0 := by
  cases nodes with
  | nil =>
    obtain rfl := shows
    rfl
  | cons node rest =>
    obtain ⟨o, others, here, later, rfl⟩ := shows
    show o.cuts + Outcome.allCuts others = 0
    rw [Node.Shows.inline node inline here, Node.ShowsAll.inline rest inline later, zero_add]
termination_by structural nodes

theorem Built.Shows.inline (built : Built) {instead : Option String} {env : Environment}
    (inline : env.deferral = none) {o : Outcome} (shows : built.Shows instead env o) :
    o.cuts = 0 := by
  cases built with
  | node tree => exact Node.Shows.inline tree inline shows
  | panics message =>
    obtain ⟨text, -, rfl⟩ := shows
    rfl
termination_by structural built

end

/-- Where nothing can be deferred the rendering of a tree comes to the text of the tree. -/
theorem Node.Shows.whole {node : Node} {env : Environment} (inline : env.deferral = none)
    {o : Outcome} (shows : node.Shows env o) : o.text = node.inlined env.values := by
  have none := Node.Shows.inline node inline shows
  have solves : Solves (fun _ => []) o.cuts := by simp [Solves, none]
  obtain ⟨parts, cutInto, filled⟩ := Node.Shows.cutInto node shows solves
  have whole : Part.patchesAll parts = [] := by simpa [none] using filled.patches
  rw [← filled.text, Part.shownAll_of_patchesAll_nil whole, Node.CutInto.inlined node cutInto]

end ProgressiveHtml
