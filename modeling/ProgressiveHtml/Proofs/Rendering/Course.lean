import ProgressiveHtml.Proofs.Reader.Run
import ProgressiveHtml.Proofs.Registry.Accounting

namespace ProgressiveHtml

/-!
# Renderings — a rendering beside a registry

The body of a document is rendered beside the registry to which it hands its late fragments.  A
`Rendering.Course` tells how far such a rendering has got, and what has happened to the registry in
the meantime, whatever else was written of the document.

* `History.ofRegistry`, `History.patches` — the part of a history that concerns the registry;
* `Rendering.Course` — how a rendering and a registry get on side by side;
* `Rendering.Course.reached` — the registry is in a state that can be reached.
-/

/-- Whether something concerns the registry.  Of what the reader gets, these are the patches. -/
def Happening.ofRegistry : Happening → Bool
  | yielded (.ok chunk) => chunk.slot?.isSome
  | yielded (.error _) => false
  | _ => true

namespace History

/-- The part of a history that concerns the registry. -/
def ofRegistry (h : List Happening) : List Happening := h.filter Happening.ofRegistry

/-- The patches among the chunks that the reader got. -/
def patches (h : List Happening) : List Chunk := (chunks h).filter (·.slot?.isSome)

variable (h new : List Happening)

@[simp] theorem ofRegistry_append : ofRegistry (h ++ new) = ofRegistry h ++ ofRegistry new :=
  List.filter_append ..

@[simp] theorem patches_append : patches (h ++ new) = patches h ++ patches new := by
  simp [patches]

/-- What is not about the items that the reader gets is all about the registry. -/
theorem filterMap_ofRegistry {α : Type} {f : Happening → Option α}
    (unread : ∀ item, f (.yielded item) = none) : (ofRegistry h).filterMap f = h.filterMap f := by
  unfold ofRegistry
  rw [List.filterMap_filter]
  congr
  funext happening
  cases happening with
  | yielded item => simp [unread]
  | _ => rfl

@[simp] theorem slots_ofRegistry : slots (ofRegistry h) = slots h :=
  filterMap_ofRegistry h fun _ => rfl

@[simp] theorem accepted_ofRegistry : accepted (ofRegistry h) = accepted h :=
  filterMap_ofRegistry h fun _ => rfl

@[simp] theorem completions_ofRegistry : completions (ofRegistry h) = completions h :=
  filterMap_ofRegistry h fun _ => rfl

/-- What the reader gets of a registry are the patches. -/
theorem yields_ofRegistry : yields (ofRegistry h) = (patches h).map .ok := by
  induction h with
  | nil => rfl
  | cons happening rest ih =>
    rcases happening with _ | _ | (_ | chunk)
    · exact ih
    · exact ih
    · exact ih
    · cases chunk with
      | literal | content => exact ih
      | patch slot markup => exact congrArg (Except.ok (.patch slot markup) :: ·) ih

@[simp] theorem ofRegistry_handIns (host : Option Nat) (taken : Bool) (given : List Nat) :
    ofRegistry (handIns host taken given) = handIns host taken given := by
  induction given with
  | nil => rfl
  | cons slot _ ih => exact congrArg (Happening.handedIn slot host taken :: ·) ih

end History

namespace EventLoop

variable {w w' : EventLoop} {new : List Happening}

/-- All that happens in the background concerns the registry. -/
theorem Background.ofRegistry (move : w.Background new w') : History.ofRegistry new = new := by
  cases move with
  | pass => rfl
  | goOn => exact History.ofRegistry_handIns ..
  | finish => rfl

theorem Background.chunks (move : w.Background new w') : History.chunks new = [] := by
  simp [History.chunks, move.yields]

end EventLoop

namespace Rendering

/-- How far a rendering has got that began as `first`, beside a registry that began fresh, and what
    has happened to the registry meanwhile. -/
inductive Course (first : Rendering) : List Happening → Rendering → EventLoop → Prop
  | start {w : EventLoop} (fresh : w.registry = {}) : Course first [] first w
  /-- The rendering goes on. -/
  | step {h : List Happening} {r r' : Rendering} {handed : List Registration} {w w' : EventLoop}
      (course : Course first h r w) (step : r.Step w handed r' w') :
      Course first (h ++ History.handIns none (!w.registry.closed) (handed.map (·.slot))) r' w'
  /-- A late fragment goes on or ends, or time passes. -/
  | background {h new : List Happening} {r : Rendering} {w w' : EventLoop}
      (course : Course first h r w) (move : w.Background new w') : Course first (h ++ new) r w'
  /-- The reader asks for an item. -/
  | ask {h : List Happening} {r : Rendering} {w w' : EventLoop} {answer : Answer}
      (course : Course first h r w) (asked : w.drain = (answer, w')) :
      Course first (h ++ History.reads answer.items) r w'
  /-- The reader gives the registry up. -/
  | close {h : List Happening} {r : Rendering} {w : EventLoop} (course : Course first h r w) :
      Course first h r w.close
  /-- Something happens that does not concern the registry. -/
  | elsewhere {h : List Happening} {r : Rendering} {w w' : EventLoop}
      (course : Course first h r w) (same : w'.registry = w.registry) : Course first h r w'

/-- The registry beside a rendering is in a state that can be reached. -/
theorem Course.reached {first r : Rendering} {h : List Happening} {w : EventLoop}
    (course : Course first h r w) : EventLoop.Reached h w := by
  induction course with
  | start fresh => exact .start fresh
  | step _ step ih => exact ih.steps (.single step)
  | background _ move ih => exact ih.background move
  | ask _ asked ih => exact ih.ask asked
  | close _ ih => exact ih.close
  | elsewhere _ same ih => exact ih.elsewhere same

end Rendering

end ProgressiveHtml
