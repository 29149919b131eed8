import ProgressiveHtml.Proofs.Rendering.Same
import ProgressiveHtml.Proofs.Rendering.Silent

namespace ProgressiveHtml

/-!
# Nodes — the same tree in another run

A tree is rendered in the same way in two runs, whatever numbers its contents get there.  Where it may have
to do with late fragments, nothing that it awaits has been asked before; elsewhere nothing in it can be
deferred.

* `Node.Fresh`, `Built.Fresh` — trees in which nothing has been asked before;
* `Rendering.Same.andThen`, `Rendering.Same.times` — renderings one after the other;
* `Fragment.same` — the fragments of a tree;
* `Node.same`, `Built.same` — the renderings of trees.
-/

mutual

/-- Nothing that the tree awaits has been asked before, nor anything in the subtrees that are built while it
    is rendered. -/
def Node.Fresh : Node → Environment → Prop
  | .element _ _ children, env => Node.FreshAll children env
  | .group children, env => Node.FreshAll children env
  | .head _ children, env => Node.FreshAll children env
  | .provide key value child, env => child.Fresh (env.add key value)
  | .consume key build, env => (build (env.get? key)).Fresh env
  | .await value content, env => value.pace.Unasked ∧ content.Fresh env
  | .defer value render fallback onError, env =>
    value.pace.Unasked ∧ fallback.Fresh env ∧
      match value.result with
      | .ok text => (render text).Fresh env
      | .error error =>
        match onError with
        | none => True
        | some build => (build error).Fresh env
  | .again _ child, env => child.Fresh env
  | .recover child, env => child.Fresh env
  | _, _ => True
termination_by structural node => node

/-- Siblings in which nothing has been asked before. -/
def Node.FreshAll : List Node → Environment → Prop
  | [], _ => True
  | node :: rest, env => node.Fresh env ∧ Node.FreshAll rest env
termination_by structural nodes => nodes

/-- In what a callback built nothing has been asked before. -/
def Built.Fresh : Built → Environment → Prop
  | .node tree, env => tree.Fresh env
  | .panics _, _ => True
termination_by structural built => built

end

theorem Node.fresh_defer {value : Eventual (Except Chain String)} {render : String → Built}
    {fallback : Built} {onError : Option (Chain → Built)} {env : Environment} :
    (Node.defer value render fallback onError).Fresh env ↔
      value.pace.Unasked ∧ fallback.Fresh env ∧
        match value.result with
        | .ok shown => (render shown).Fresh env
        | .error error => ∀ build ∈ onError, (build error).Fresh env := by
  cases onError <;> simp [Node.Fresh]

namespace Rendering

variable {shared : Bool}

/-- Going on in the same way after the same rendering. -/
theorem Same.andThen : ∀ {N : Names} {r r' : Rendering}, Same shared N r r' →
    ∀ {next next' : String → Rendering}, (∀ markup, Same shared N (next markup) (next' markup)) →
      Same shared N (r.andThen next) (r'.andThen next')
  | _, _, _, .done _ markup, _, _, onward => onward markup
  | _, _, _, .failed _ error, _, _, _ => .failed _ error
  | _, _, _, .panicked _ message, _, _, _ => .panicked _ message
  | _, _, _, .note event event' same, _, _, onward => .note event event' (same.andThen onward)
  | _, _, _, .claim paired same, _, _, onward => .claim paired (same.andThen onward)
  | _, _, _, .number size same, _, _, onward =>
    .number size fun _ _ _ within numbered =>
      (same within numbered).andThen fun markup => (onward markup).mono within
  | _, _, _, .outstanding isShared same, _, _, onward =>
    .outstanding isShared fun count => (same count).andThen onward
  | _, _, _, .register isShared contents same, _, _, onward =>
    .register isShared contents fun slot => (same slot).andThen onward
  | _, _, _, .wait paces same, _, _, onward => .wait paces (same.andThen onward)
  | _, _, _, .race races settled timedOut, _, _, onward =>
    .race races (settled.andThen onward) fun _ _ _ within paces =>
      (timedOut within paces).andThen fun markup => (onward markup).mono within
  | _, _, _, .join parts same, _, _, onward => .join parts fun texts => (same texts).andThen onward
  | _, _, _, .attempt body same, _, _, onward =>
    .attempt body fun result => (same result).andThen onward

/-- The same rendering several times in a row. -/
theorem Same.times {N : Names} {r r' : Rendering} (same : Same shared N r r') (count : Nat) :
    Same shared N (times count r) (times count r') := by
  induction count with
  | zero => exact .done N ""
  | succ count ih => exact same.andThen fun _ => ih.andThen fun _ => .done N _

end Rendering

open Rendering

section

variable {shared : Bool} {N : Names}

/-- Once a value has taken its time it is concluded in the same way. -/
theorem Eventual.same_conclude {α : Type} (value : Eventual α) {next next' : α → Rendering}
    (onward : Same shared N (next value.result) (next' value.result)) :
    Same shared N (value.conclude next) (value.conclude next') := by
  unfold conclude
  split
  · exact .panicked N _
  · exact onward

/-- A value takes the same time whatever the number of the content is. -/
theorem Eventual.same_numbered {α : Type} (value : Eventual α)
    (unasked : shared = true → value.pace.Unasked) (σ : Pairing) (cell cell' : Nat) :
    (value.numbered cell).pace.Same shared σ (value.numbered cell').pace := by
  cases shared with
  | false => exact Pace.same_of_sleeps rfl rfl
  | true => exact Pace.Unasked.same (p := (value.numbered cell).pace) (unasked rfl) rfl rfl

/-- A failure is shown in the same way whatever the label is. -/
theorem same_failureRendering (label label' : Label) {onError : Option (Chain → Option Rendering)}
    {error : Chain}
    (onward : ∀ callback ∈ onError, ∀ shown ∈ callback error, Same shared N shown shown) :
    Same shared N (failureRendering label onError error) (failureRendering label' onError error) := by
  cases onError with
  | none => exact .done N _
  | some callback =>
    refine .note _ _ ?_
    cases built : callback error with
    | some shown => exact onward callback rfl shown built
    | none => exact .note _ _ (.done N _)

/-- The same fragment is rendered in two runs, as contents with different numbers: in place, or where it may
    be deferred. -/
theorem Fragment.same {f f' : Fragment} (panic : f.value.panic? = f'.value.panic?)
    (result : f.value.result = f'.value.result) {fallback fallback' : Rendering} {deferral : Option Nat}
    (may : shared = false → deferral = none) (paces : f.value.pace.Same shared N.sleeps f'.value.pace)
    (settled : Same shared N (f.settled f.value.result) (f'.settled f'.value.result))
    (instead : Same shared N fallback fallback') :
    Same shared N (f.rendering fallback deferral) (f'.rendering fallback' deferral) := by
  -- Whatever goes on after the value, it panics in both runs or goes on in both.
  have concluded {N' : Names} {next next' : Except Chain String → Rendering}
      (onward : Same shared N' (next f.value.result) (next' f'.value.result)) :
      Same shared N' (f.value.conclude next) (f'.value.conclude next') := by
    unfold Eventual.conclude
    rw [← panic]
    cases f.value.panic? with
    | some message => exact .panicked N' message
    | none => exact onward
  cases deferral with
  | none => exact .wait paces (concluded settled)
  | some timeout =>
    have isShared : shared = true := by
      cases shared with
      | true => rfl
      | false => cases may rfl
    refine .race ⟨paces, rfl⟩ (concluded (.note _ _ settled)) fun N' pace pace' within paces => ?_
    refine .register isShared (fun slot => ?_) fun slot => ?_
    · refine .wait paces (concluded ?_)
      have settled := settled.mono within
      rw [← result] at settled ⊢
      cases came : f.value.result <;> rw [came] at settled
      case ok => exact settled
      case error => exact .note _ _ settled
    · exact .note _ _ ((instead.mono within).andThen fun markup => .done N' _)

end

mutual

/-- A tree is rendered in the same way in two runs, whatever numbers its contents have. -/
theorem Node.same {shared : Bool} (node : Node) {env : Environment}
    (fresh : shared = true → node.Fresh env) (inPlace : shared = false → env.deferral = none) {N : Names}
    {first first' : Nat} (paired : ∀ k < node.cells, N.cells (first + k) (first' + k)) :
    Same shared N (node.rendering env first) (node.rendering env first') := by
  cases node with
  | empty | markup | text | fail | panics => constructor
  | element tag attributes children =>
    exact .join (Node.sameAll children fresh inPlace paired) fun _ => .done N _
  | group children => exact .join (Node.sameAll children fresh inPlace paired) fun _ => .done N _
  | head title children => exact .join (Node.sameAll children fresh inPlace paired) fun _ => .done N _
  | provide key value child =>
    have still (apart : shared = false) : (env.add key value).deferral = none := inPlace apart
    exact child.same fresh still paired
  | consume key build => exact (build _).same fresh inPlace N
  | await value content =>
    refine .claim (paired 0 Nat.one_pos) (.wait ?_ (value.same_conclude ?_))
    · exact value.same_numbered (fun isShared => (fresh isShared).1) N.sleeps first first'
    · exact content.same (fun isShared => (fresh isShared).2) inPlace N
  | defer value render fallback onError =>
    have fresh (isShared : shared = true) := Node.fresh_defer.1 (fresh isShared)
    rw [Node.rendering_defer, Node.rendering_defer]
    refine .claim (paired 0 Nat.one_pos) (Fragment.same ?_ ?_ inPlace ?_ ?_ ?_)
    · rfl
    · rfl
    · exact value.same_numbered (fun isShared => (fresh isShared).1) N.sleeps first first'
    · have fresh (isShared : shared = true) := (fresh isShared).2.2
      show Same shared N (Fragment.settled _ value.result) (Fragment.settled _ value.result)
      cases settled : value.result with
      | ok text =>
        simp only [settled] at fresh
        exact .note _ _ ((render text).same fresh inPlace N)
      | error error =>
        simp only [settled] at fresh
        refine same_failureRendering _ _ fun callback given shown built => ?_
        cases onError with
        | none => cases given
        | some build =>
          obtain rfl := Option.some.inj given
          exact (build error).same? (fun isShared => fresh isShared build rfl) inPlace N built
    · exact fallback.same (fun isShared => (fresh isShared).2.1) inPlace N
  | again count child => exact (child.same fresh inPlace paired).times count
  | recover child =>
    refine .attempt (child.same fresh inPlace paired) fun result => ?_
    cases result <;> exact .done N _
  | inspect keys =>
    rw [Node.rendering, Node.rendering]
    cases shared with
    | false =>
      rw [inPlace rfl]
      exact .done N _
    | true =>
      cases env.deferral with
      | none => exact .done N _
      | some timeout => exact .outstanding rfl fun _ => .done N _
termination_by structural node

theorem Node.sameAll {shared : Bool} (nodes : List Node) {env : Environment}
    (fresh : shared = true → Node.FreshAll nodes env) (inPlace : shared = false → env.deferral = none)
    {N : Names} {first first' : Nat}
    (paired : ∀ k < Node.cellsOfAll nodes, N.cells (first + k) (first' + k)) :
    SameAll shared N (Node.renderings nodes env first) (Node.renderings nodes env first') := by
  cases nodes with
  | nil => exact .nil N
  | cons node rest =>
    -- The first tree has the first contents, and the others those that come after.
    refine .cons (node.same (fun isShared => (fresh isShared).1) inPlace fun k less =>
        paired k (Nat.lt_add_right _ less))
      (Node.sameAll rest (fun isShared => (fresh isShared).2) inPlace fun k less => ?_)
    rw [Nat.add_assoc, Nat.add_assoc]
    exact paired _ (Nat.add_lt_add_left less _)
termination_by structural nodes

theorem Built.same {shared : Bool} (built : Built) {env : Environment}
    (fresh : shared = true → built.Fresh env) (inPlace : shared = false → env.deferral = none)
    (N : Names) : Same shared N (built.rendering env) (built.rendering env) := by
  cases built with
  | node tree => exact .number tree.cells fun _ _ _ _ numbered => tree.same fresh inPlace numbered
  | panics message => exact .panicked N message
termination_by structural built

theorem Built.same? {shared : Bool} (built : Built) {env : Environment}
    (fresh : shared = true → built.Fresh env) (inPlace : shared = false → env.deferral = none)
    (N : Names) {shown : Rendering} (rendered : built.rendering? env = some shown) :
    Same shared N shown shown := by
  cases built with
  | node tree =>
    obtain rfl := Option.some.inj rendered
    exact .number tree.cells fun _ _ _ _ numbered => tree.same fresh inPlace numbered
  | panics => cases rendered
termination_by structural built

end

end ProgressiveHtml
