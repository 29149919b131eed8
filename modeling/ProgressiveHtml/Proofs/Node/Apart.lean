import ProgressiveHtml.Proofs.Rendering.Alike
import ProgressiveHtml.Proofs.Rendering.Silent

namespace ProgressiveHtml

/-!
# Nodes — trees that keep to themselves

A tree keeps to itself when its rendering neither hands a fragment to the registry nor asks how many
are outstanding.  It is then rendered in the same way whenever that begins and whatever numbers its
contents get.

* `Node.Apart`, `Built.Apart` — trees that keep to themselves;
* `Node.alike` — their renderings;
* `Standalone` — a late fragment whose content keeps to itself, with `Standalone.alike`.
-/

mutual

/-- A tree without fragments that may be deferred, whose rendering does not ask for the number of
    outstanding ones.  Nothing that it awaits has been asked before. -/
def Node.Apart : Node → Environment → Prop
  | .element _ _ children, env => Node.ApartAll children env
  | .group children, env => Node.ApartAll children env
  | .head _ children, env => Node.ApartAll children env
  | .provide key value child, env => child.Apart (env.add key value)
  | .consume key build, env => (build (env.get? key)).Apart env
  | .await value content, env => value.pace.Unasked ∧ content.Apart env
  | .defer .., _ => False
  | .again _ child, env => child.Apart env
  | .recover child, env => child.Apart env
  | .inspect _, env => env.deferral = none
  | _, _ => True
termination_by structural node => node

/-- Siblings that keep to themselves. -/
def Node.ApartAll : List Node → Environment → Prop
  | [], _ => True
  | node :: rest, env => node.Apart env ∧ Node.ApartAll rest env
termination_by structural nodes => nodes

/-- What a callback built keeps to itself; a panic does. -/
def Built.Apart : Built → Environment → Prop
  | .node tree, env => tree.Apart env
  | .panics _, _ => True
termination_by structural built => built

end

namespace Rendering

variable {shift : Nat}

/-- Going on in the same way after renderings that are alike. -/
theorem Alike.andThen : ∀ {ρ : Pairing} {r r' : Rendering}, Alike shift ρ r r' →
    ∀ {next next' : String → Rendering}, (∀ markup, Alike shift ρ (next markup) (next' markup)) →
      Alike shift ρ (r.andThen next) (r'.andThen next')
  | _, _, _, .done _ markup, _, _, onward => onward markup
  | _, _, _, .failed _ error, _, _, _ => .failed _ error
  | _, _, _, .panicked _ message, _, _, _ => .panicked _ message
  | _, _, _, .note event event' alike, _, _, onward => .note event event' (alike.andThen onward)
  | _, _, _, .claim paired alike, _, _, onward => .claim paired (alike.andThen onward)
  | _, _, _, .number size alike, _, _, onward =>
    .number size fun _ _ _ within numbered =>
      (alike within numbered).andThen fun markup => (onward markup).mono within
  | _, _, _, .wait paces alike, _, _, onward => .wait paces (alike.andThen onward)
  | _, _, _, .join parts alike, _, _, onward =>
    .join parts fun texts => (alike texts).andThen onward
  | _, _, _, .attempt body alike, _, _, onward =>
    .attempt body fun result => (alike result).andThen onward

/-- Renderings that are alike, several times in a row. -/
theorem Alike.times {ρ : Pairing} {r r' : Rendering} (alike : Alike shift ρ r r') (count : Nat) :
    Alike shift ρ (times count r) (times count r') := by
  induction count with
  | zero => exact .done ρ ""
  | succ count ih => exact alike.andThen fun _ => ih.andThen fun _ => .done ρ _

end Rendering

open Rendering

/-- Once a value has taken its time it is concluded in the same way. -/
theorem Eventual.alike_conclude {α : Type} (value : Eventual α) {shift : Nat} {ρ : Pairing}
    {next next' : α → Rendering} (onward : Alike shift ρ (next value.result) (next' value.result)) :
    Alike shift ρ (value.conclude next) (value.conclude next') := by
  unfold conclude
  split
  · exact .panicked ρ _
  · exact onward

mutual

/-- A tree that keeps to itself is rendered in the same way, whenever that begins and whatever numbers
    its contents have. -/
theorem Node.alike (node : Node) {env : Environment} (apart : node.Apart env) {shift : Nat}
    {ρ : Pairing} {first first' : Nat} (paired : ∀ k < node.cells, ρ (first + k) (first' + k)) :
    Alike shift ρ (node.rendering env first) (node.rendering env first') := by
  cases node with
  | empty | markup | text | fail | panics => constructor
  | element tag attributes children =>
    exact .join (Node.alikeAll children apart paired) fun _ => .done ρ _
  | group children => exact .join (Node.alikeAll children apart paired) fun _ => .done ρ _
  | head title children => exact .join (Node.alikeAll children apart paired) fun _ => .done ρ _
  | provide key value child => exact child.alike apart paired
  | consume key build => exact (build _).alike apart ρ
  | await value content =>
    -- The content has its own number in both, and its value has not been asked in either.
    obtain ⟨unasked, apart⟩ := apart
    have mine : ρ first first' := paired 0 Nat.one_pos
    have paces : (value.numbered first).pace.Alike shift (value.numbered first').pace :=
      ⟨unasked.sleeps shift, rfl⟩
    exact .claim mine (.wait paces (value.alike_conclude (content.alike apart ρ)))
  | defer => exact apart.elim
  | again count child => exact (child.alike apart paired).times count
  | recover child =>
    refine .attempt (child.alike apart paired) fun result => ?_
    cases result <;> exact .done ρ _
  | inspect keys =>
    have inline : env.deferral = none := apart
    rw [Node.rendering, Node.rendering, inline]
    exact .done ρ _
termination_by structural node

theorem Node.alikeAll (nodes : List Node) {env : Environment} (apart : Node.ApartAll nodes env)
    {shift : Nat} {ρ : Pairing} {first first' : Nat}
    (paired : ∀ k < Node.cellsOfAll nodes, ρ (first + k) (first' + k)) :
    AlikeAll shift ρ (Node.renderings nodes env first) (Node.renderings nodes env first') := by
  cases nodes with
  | nil => exact .nil ρ
  | cons node rest =>
    -- The first tree has the first contents, and the others those that come after.
    refine .cons (node.alike apart.1 fun k less => paired k (Nat.lt_add_right _ less))
      (Node.alikeAll rest apart.2 fun k less => ?_)
    rw [Nat.add_assoc, Nat.add_assoc]
    exact paired _ (Nat.add_lt_add_left less _)
termination_by structural nodes

theorem Built.alike (built : Built) {env : Environment} (apart : built.Apart env) {shift : Nat}
    (ρ : Pairing) : Alike shift ρ (built.rendering env) (built.rendering env) := by
  cases built with
  | node tree => exact .number tree.cells fun _ _ _ _ numbered => tree.alike apart numbered
  | panics message => exact .panicked ρ message
termination_by structural built

end

/-- What a callback that did not panic built is rendered in the same way. -/
theorem Built.alike? (built : Built) {env : Environment} (apart : built.Apart env) {shift : Nat}
    (ρ : Pairing) {shown : Rendering} (rendered : built.rendering? env = some shown) :
    Alike shift ρ shown shown := by
  cases built with
  | node tree =>
    obtain rfl := Option.some.inj rendered
    exact .number tree.cells fun _ _ _ _ numbered => tree.alike apart numbered
  | panics => cases rendered

/-- A failure is shown in the same way whatever the label is. -/
theorem alike_failureRendering {shift : Nat} {ρ : Pairing} (label label' : Label)
    {onError : Option (Chain → Option Rendering)} {error : Chain}
    (onward : ∀ callback ∈ onError, ∀ shown ∈ callback error, Alike shift ρ shown shown) :
    Alike shift ρ (failureRendering label onError error) (failureRendering label' onError error) := by
  cases onError with
  | none => exact .done ρ _
  | some callback =>
    refine .note _ _ ?_
    cases built : callback error with
    | some shown => exact onward callback rfl shown built
    | none => exact .note _ _ (.done ρ _)

/-! ### Fragments -/

/-- A late fragment whose content keeps to itself. -/
structure Standalone where
  value : Eventual (Except Chain String)
  /-- The callback for the value. -/
  shown : String → Built
  /-- The callback for a failure, if there is one. -/
  onError : Option (Chain → Built)
  /-- The environment in which the fragment stands. -/
  env : Environment
  /-- Nobody has asked for the value before. -/
  unasked : value.pace.Unasked
  /-- What the callbacks build keeps to itself. -/
  apart : match value.result with
    | .ok text => (shown text).Apart env
    | .error error => ∀ build ∈ onError, (build error).Apart env

namespace Standalone

/-- The content of the fragment as it is handed to a registry. -/
def content (f : Standalone) : Nat → Rendering :=
  (Fragment.ofCallbacks f.value f.shown f.onError f.env).late f.value.pace

/-- The content of the fragment goes the same way whatever its slot is and whenever it is handed in. -/
theorem alike (f : Standalone) (shift : Nat) (ρ : Pairing) (slot slot' : Nat) :
    Alike shift ρ (f.content slot) (f.content slot') := by
  refine .wait ⟨f.unasked.sleeps shift, rfl⟩ (f.value.alike_conclude ?_)
  have apart := f.apart
  show Alike shift ρ
    (match f.value.result with
      | .ok _ => Fragment.settled _ f.value.result
      | .error error => .note (.notice (.fragmentFailed slot error)) (Fragment.settled _ f.value.result))
    (match f.value.result with
      | .ok _ => Fragment.settled _ f.value.result
      | .error error => .note (.notice (.fragmentFailed slot' error)) (Fragment.settled _ f.value.result))
  cases isResult : f.value.result with
  | ok text =>
    rw [isResult] at apart
    exact .note _ _ ((f.shown text).alike apart ρ)
  | error error =>
    rw [isResult] at apart
    refine .note _ _ (alike_failureRendering _ _ fun callback given shown built => ?_)
    obtain ⟨build, isGiven, rfl⟩ := Option.map_eq_some_iff.1 given
    exact (build error).alike? (apart build isGiven) ρ built

end Standalone

end ProgressiveHtml
