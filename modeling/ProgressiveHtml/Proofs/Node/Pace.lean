import ProgressiveHtml.Node
import ProgressiveHtml.Proofs.Rendering.Abreast

namespace ProgressiveHtml

/-!
# Nodes — every tree keeps pace

When the rendering of a tree goes on does not depend on which numbers its contents and the slots of its
fragments get.

* `Fragment.KeepsPace` — a fragment whose callbacks render what keeps pace;
* `Fragment.KeepsPace.rendering` — such a fragment at its place;
* `Node.abreast`, `Built.abreast` — the rendering of a tree goes on abreast with itself.
-/

open Rendering

/-- Once values have taken their time they are concluded at the same pace, if both panic or neither. -/
theorem Eventual.abreast_conclude {α : Type} {value value' : Eventual α} {ρ : Pairing}
    (panic : value.panic? = value'.panic?) {next next' : α → Rendering}
    (onward : Abreast ρ (next value.result) (next' value'.result)) :
    Abreast ρ (value.conclude next) (value'.conclude next') := by
  rw [conclude, conclude, panic]
  split
  · exact .panicked ρ _ _
  · exact onward

/-- A fragment whose callbacks render what keeps pace. -/
structure Fragment.KeepsPace (f : Fragment) : Prop where
  shown : ∀ ρ text, Abreast ρ (f.shown text) (f.shown text)
  onError : ∀ ρ error, ∀ callback ∈ f.onError, ∀ shown ∈ callback error, Abreast ρ shown shown

/-- The fragment as the content with a number. -/
def Fragment.numbered (f : Fragment) (cell : Nat) : Fragment := { f with value := f.value.numbered cell }

namespace Fragment.KeepsPace

variable {f : Fragment} {ρ : Pairing}

/-- What is shown for a failure. -/
theorem failureRendering (keepsPace : f.KeepsPace) (ρ : Pairing) (label label' : Label)
    (error : Chain) : Abreast ρ (ProgressiveHtml.failureRendering label f.onError error)
      (ProgressiveHtml.failureRendering label' f.onError error) := by
  have onError := keepsPace.onError ρ error
  cases isCallback : f.onError with
  | none => exact .done ρ _ _
  | some callback =>
    refine .note _ _ ?_
    cases built : callback error with
    | some shown => exact onError callback isCallback shown built
    | none => exact .note _ _ (.done ρ _ _)

/-- What is shown once the value has settled. -/
theorem settled (keepsPace : f.KeepsPace) (ρ : Pairing) (cell cell' : Nat)
    (result : Except Chain String) :
    Abreast ρ ((f.numbered cell).settled result) ((f.numbered cell').settled result) := by
  cases result with
  | ok text => exact .note _ _ (keepsPace.shown ρ text)
  | error error => exact keepsPace.failureRendering ρ _ _ error

/-- The content of a fragment that missed its timeout. -/
theorem late (keepsPace : f.KeepsPace) (ρ : Pairing) (cell cell' : Nat) {pace pace' : Pace}
    (paces : pace.Alike 0 pace') (slot slot' : Nat) :
    Abreast ρ ((f.numbered cell).late pace slot) ((f.numbered cell').late pace' slot') := by
  refine .wait paces (Eventual.abreast_conclude (by rfl) ?_)
  have settled := keepsPace.settled ρ cell cell' f.value.result
  obtain ⟨⟨_, _, result⟩, _, _⟩ := f
  cases result with
  | ok text => exact settled
  | error error => exact .note _ _ settled

/-- The fragment at its place. -/
theorem rendering (keepsPace : f.KeepsPace) (ρ : Pairing) (cell cell' : Nat) {fallback : Rendering}
    (beside : Abreast ρ fallback fallback)
    (deferral : Option Nat) : Abreast ρ ((f.numbered cell).rendering fallback deferral)
      ((f.numbered cell').rendering fallback deferral) := by
  have paces : (f.numbered cell).value.pace.Alike 0 (f.numbered cell').value.pace :=
    f.value.numbered_alike cell cell'
  cases deferral with
  | none =>
    exact .wait paces (Eventual.abreast_conclude (by rfl) (keepsPace.settled ρ cell cell' f.value.result))
  | some timeout =>
    refine .race ⟨paces, rfl⟩ ?_ fun pace pace' paces => ?_
    · exact Eventual.abreast_conclude (by rfl) (.note _ _ (keepsPace.settled ρ cell cell' f.value.result))
    · refine .register (fun slot => ?_) fun slot slot' => ?_
      · exact keepsPace.late nothingPaired cell cell (.refl pace) slot slot
      · exact .note _ _ (beside.andThen fun _ _ => .done ρ _ _)

end Fragment.KeepsPace

mutual

/-- The rendering of a tree goes on at the same pace, whatever numbers its contents have. -/
theorem Node.abreast (node : Node) (env : Environment) {ρ : Pairing} {first first' : Nat}
    (paired : ∀ k < node.cells, ρ (first + k) (first' + k)) :
    Abreast ρ (node.rendering env first) (node.rendering env first') := by
  cases node with
  | empty | markup | text | fail | panics => constructor
  | element tag attributes children =>
    exact .join (Node.abreastAll children env paired) fun _ _ => .done ρ _ _
  | group children => exact .join (Node.abreastAll children env paired) fun _ _ => .done ρ _ _
  | head title children => exact .join (Node.abreastAll children env paired) fun _ _ => .done ρ _ _
  | provide key value child => exact child.abreast _ paired
  | consume key build => exact (build _).abreast env ρ
  | await value content =>
    have mine : ρ first first' := paired 0 Nat.one_pos
    exact .claim mine (.wait (value.numbered_alike first first')
      (Eventual.abreast_conclude (by rfl) (content.abreast env ρ)))
  | defer value render fallback onError =>
    have mine : ρ first first' := paired 0 Nat.one_pos
    have beside := fallback.abreast env ρ
    have shown := fun ρ text => (render text).abreast env ρ
    -- The callback is taken out of the node by cases, so that the recursion stays structural.
    cases onError with
    | none =>
      have keepsPace : Fragment.KeepsPace
          { value, shown := fun text => (render text).rendering env, onError := none } :=
        ⟨shown, fun _ _ _ isCallback => by cases isCallback⟩
      exact .claim mine (keepsPace.rendering ρ first first' beside env.deferral)
    | some build =>
      have keepsPace : Fragment.KeepsPace
          { value
            shown := fun text => (render text).rendering env
            onError := some fun error => (build error).rendering? env } := by
        refine ⟨shown, fun ρ error callback isCallback shown rendered => ?_⟩
        obtain rfl := Option.some.inj isCallback
        exact (build error).abreast? env ρ rendered
      exact .claim mine (keepsPace.rendering ρ first first' beside env.deferral)
  | again count child => exact (child.abreast env paired).times count
  | recover child =>
    exact .attempt (child.abreast env paired) (fun _ _ => .done ρ _ _) fun _ => .done ρ _ _
  | inspect keys =>
    rw [Node.rendering, Node.rendering]
    cases env.deferral with
    | none => exact .done ρ _ _
    | some timeout => exact .outstanding fun _ _ => .done ρ _ _
termination_by structural node

theorem Node.abreastAll (nodes : List Node) (env : Environment) {ρ : Pairing} {first first' : Nat}
    (paired : ∀ k < Node.cellsOfAll nodes, ρ (first + k) (first' + k)) :
    AbreastAll ρ (Node.renderings nodes env first) (Node.renderings nodes env first') := by
  cases nodes with
  | nil => exact .nil ρ
  | cons node rest =>
    -- The first tree has the first contents, and the others those that come after.
    refine .cons (node.abreast env fun k less => paired k (Nat.lt_add_right _ less))
      (Node.abreastAll rest env fun k less => ?_)
    rw [Nat.add_assoc, Nat.add_assoc]
    exact paired _ (Nat.add_lt_add_left less _)
termination_by structural nodes

theorem Built.abreast (built : Built) (env : Environment) (ρ : Pairing) :
    Abreast ρ (built.rendering env) (built.rendering env) := by
  cases built with
  | node tree => exact .number tree.cells fun _ _ _ _ numbered => tree.abreast env numbered
  | panics message => exact .panicked ρ message message
termination_by structural built

/-- What a callback that did not panic built keeps pace. -/
theorem Built.abreast? (built : Built) (env : Environment) (ρ : Pairing) {shown : Rendering}
    (rendered : built.rendering? env = some shown) : Abreast ρ shown shown := by
  cases built with
  | node tree =>
    obtain rfl := Option.some.inj rendered
    exact .number tree.cells fun _ _ _ _ numbered => tree.abreast env numbered
  | panics => cases rendered
termination_by structural built

end

end ProgressiveHtml
