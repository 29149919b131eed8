import Mathlib.Data.List.Basic
import Mathlib.Logic.Function.Basic
import ProgressiveHtml.Proofs.Related
import ProgressiveHtml.Proofs.Template.Move

namespace ProgressiveHtml

/-!
# Template streams — the walk without time

What a template stream has to yield does not depend on when its sources are ready: walk over the
template from left to right, write what each source comes to at its slot, and stop behind the first
error.  A text is written at every slot of its name, anything else only at the first.

* `Yield` — what a source comes to in the end, and what is written for it;
* `Template.reference` — the walk over a template whose sources come to the given yields;
* `Source.YieldsIn` — what a source comes to when it is asked in given states, one after the other;
* `TemplateStream.Writes` — what is written for pieces whose sources come to something;
* `TemplateStream.writes_assign` — at the start this is what the walk over the template writes.
-/

/-! ### The walk -/

/-- The items up to the first error. -/
def Item.upToError : List Item → List Item
  | [] => []
  | .ok chunk :: rest => .ok chunk :: upToError rest
  | .error error :: _ => [.error error]

/-- What a source comes to in the end. -/
inductive Yield where
  /-- A text is there from the start. -/
  | text (text : String)
  /-- The markup or the error of a rendering. -/
  | result (result : Except RenderError String)
  /-- All items of a sequence. -/
  | items (items : List Item)

namespace Yield

/-- What is written for it: no content when it is empty, and the items of a sequence as they are. -/
def written : Yield → List Item
  | text plain => (Chunk.contents plain).map .ok
  | result (.ok markup) => (Chunk.contents markup).map .ok
  | result (.error error) => [.error error]
  | items all => all

/-- What is left of it for the next slot of the same name. -/
def kept : Yield → Option Yield
  | text plain => some (text plain)
  | _ => none

end Yield

namespace Template

/-- The walk over sections. -/
def referenceFrom : List (String × String) → (yields : String → Option Yield) → List Item
  | [], _ => []
  | (name, text) :: rest, yields =>
    ((yields name).map Yield.written).getD [] ++ ((Chunk.literals text).map .ok ++
      referenceFrom rest (Function.update yields name ((yields name).bind Yield.kept)))

/-- The walk goes on with the same yields behind a slot whose source can be used again, or that has
    none. -/
theorem referenceFrom_of_kept {name text : String} {rest : List (String × String)}
    {yields : String → Option Yield} (kept : (yields name).bind Yield.kept = yields name) :
    referenceFrom ((name, text) :: rest) yields =
      ((yields name).map Yield.written).getD [] ++
        ((Chunk.literals text).map .ok ++ referenceFrom rest yields) := by
  rw [referenceFrom, kept, Function.update_eq_self]

/-- The walk over a template: the items written when the sources come to the given yields, up to the
    first error. -/
def reference (t : Template) (yields : String → Option Yield) : List Item :=
  Item.upToError ((Chunk.literals t.opening).map .ok ++ referenceFrom t.sections yields)

end Template

/-! ### What sources come to -/

/-- A rendering comes to a result when it is asked in the given states, one after the other, and this
    takes so many questions. -/
inductive Rendering.EndsIn : (Nat → EventLoop) → Rendering → Except RenderError String → Nat → Prop
  | done (states : Nat → EventLoop) (markup : String) : EndsIn states (.done markup) (.ok markup) 0
  | failed (states : Nat → EventLoop) (error : RenderError) :
      EndsIn states (.failed error) (.error error) 0
  | ask {states : Nat → EventLoop} {r : Rendering} {result : Except RenderError String} {count : Nat}
      (later : EndsIn (fun n => states (n + 1)) (r.poll (states 0)).1 result count) :
      EndsIn states r result (count + 1)

/-- A sequence comes to the given items, up to its end or to an error, when it is asked in the given
    states, one after the other, and this takes so many questions. -/
inductive Sequence.BringsIn : (Nat → EventLoop) → Sequence → List Item → Nat → Prop
  | finished {states : Nat → EventLoop} {s s' : Sequence} {w : EventLoop}
      (asked : s.poll (states 0) = (.finished, s', w)) : BringsIn states s [] 1
  | waiting {states : Nat → EventLoop} {s s' : Sequence} {w : EventLoop} {items : List Item}
      {count : Nat} (asked : s.poll (states 0) = (.waiting, s', w))
      (later : BringsIn (fun n => states (n + 1)) s' items count) : BringsIn states s items (count + 1)
  | chunk {states : Nat → EventLoop} {s s' : Sequence} {w : EventLoop} {chunk : Chunk}
      {items : List Item} {count : Nat} (asked : s.poll (states 0) = (.item (.ok chunk), s', w))
      (later : BringsIn (fun n => states (n + 1)) s' items count) :
      BringsIn states s (.ok chunk :: items) (count + 1)
  | error {states : Nat → EventLoop} {s s' : Sequence} {w : EventLoop} {error : RenderError}
      (asked : s.poll (states 0) = (.item (.error error), s', w)) : BringsIn states s [.error error] 1

/-- What a source comes to when it is asked in the given states, one after the other, and how many
    questions this takes. -/
inductive Source.YieldsIn (states : Nat → EventLoop) : Source → Yield → Nat → Prop
  | text (plain : String) : YieldsIn states (.text plain) (.text plain) 0
  | rendering {r : Rendering} {result : Except RenderError String} {count : Nat}
      (ends : r.EndsIn states result count) : YieldsIn states (.rendering r) (.result result) count
  | sequence {s : Sequence} {items : List Item} {count : Nat}
      (ends : s.BringsIn states items count) : YieldsIn states (.sequence s) (.items items) count

namespace Rendering.EndsIn

variable {states : Nat → EventLoop} {r : Rendering} {result : Except RenderError String} {count : Nat}

/-- What comes to a result does not panic. -/
theorem not_panicked (ends : r.EndsIn states result count) (message : String) :
    r ≠ .panicked message := by
  induction ends with
  | done | failed => simp
  | ask _ ih =>
    rintro rfl
    exact ih rfl

/-- A rendering that is asked comes to the same result, and sooner unless it is there. -/
theorem next (ends : r.EndsIn states result count) : ∃ left ≤ count,
    (r.poll (states 0)).1.EndsIn (fun n => states (n + 1)) result left ∧
      ((r.poll (states 0)).1.isOver = false → left < count) := by
  cases ends with
  | done => exact ⟨0, Nat.le_refl 0, .done _ _, nofun⟩
  | failed => exact ⟨0, Nat.le_refl 0, .failed _ _, nofun⟩
  | ask later => exact ⟨_, Nat.le_succ _, later, fun _ => Nat.lt_succ_self _⟩

/-- What is over is its own result. -/
theorem of_isOver (ended : r.isOver = true) (ends : r.EndsIn states result count) :
    (∀ markup, r = .done markup → result = .ok markup) ∧
      ∀ error, r = .failed error → result = .error error := by
  induction ends with
  | done | failed => simp
  | ask _ ih =>
    rw [poll_of_isOver ended] at ih
    exact ih ended

end Rendering.EndsIn

/-- Only a text can be used again. -/
theorem Source.YieldsIn.kept {states : Nat → EventLoop} {source : Source} {yield : Yield} {count : Nat}
    (comes : source.YieldsIn states yield count) (notText : ∀ plain, source ≠ .text plain) :
    yield.kept = none := by
  cases comes with
  | text plain => exact absurd rfl (notText plain)
  | rendering | sequence => rfl

namespace TemplateStream

/-- What is written for pieces, one after the other, when the sources in their slots are asked in the
    given states, slot by slot from the first on; and how many questions to sources this takes. -/
inductive Writes : (Nat → Nat → EventLoop) → List Piece → List (List Item) → Nat → Prop
  | nil (states : Nat → Nat → EventLoop) : Writes states [] [] 0
  | segment {states : Nat → Nat → EventLoop} {rest : List Piece} {outs : List (List Item)}
      {count : Nat} (text : String) (behind : Writes states rest outs count) :
      Writes states (.segment text :: rest) ((Chunk.literals text).map .ok :: outs) count
  | absent {states : Nat → Nat → EventLoop} {rest : List Piece} {outs : List (List Item)} {count : Nat}
      (behind : Writes (fun slot => states (slot + 1)) rest outs count) :
      Writes states (.slot none :: rest) ([] :: outs) count
  | source {states : Nat → Nat → EventLoop} {rest : List Piece} {outs : List (List Item)}
      {source : Source} {yield : Yield} {first count : Nat}
      (comes : source.YieldsIn (states 0) yield first)
      (behind : Writes (fun slot => states (slot + 1)) rest outs count) :
      Writes states (.slot (some source) :: rest) (yield.written :: outs) (first + count)

/-- What is written for the pieces of sections is what the walk over the sections writes. -/
theorem writes_assign {sections : List (String × String)} {sources : Sources}
    {yields : String → Option Yield} {states : Nat → Nat → EventLoop}
    (come : ∀ name ∈ sections.map (·.1), Option.Rel
      (fun source yield => ∃ count, source.YieldsIn (states ((sections.map (·.1)).idxOf name)) yield count)
      (Named.get? sources name) (yields name)) (w : EventLoop) :
    ∃ outs count, Writes states (assign sections sources w).1 outs count ∧
      outs.flatten = Template.referenceFrom sections yields := by
  induction sections generalizing sources yields states w with
  | nil => exact ⟨[], 0, .nil states, rfl⟩
  | cons entry rest ih =>
    obtain ⟨name, text⟩ := entry
    obtain ⟨w', -, assigned⟩ := assign_cons name text rest sources w
    have here := come name List.mem_cons_self
    rw [List.map_cons, List.idxOf_cons_self] at here
    -- A name that comes first behind this slot has its place behind it.
    have later {other : String} (occurs : other ∈ rest.map (·.1)) (differs : other ≠ name) :
        Option.Rel (fun source yield =>
            ∃ count, source.YieldsIn (states ((rest.map (·.1)).idxOf other + 1)) yield count)
          (Named.get? sources other) (yields other) := by
      have there := come other (List.mem_cons_of_mem _ occurs)
      rwa [List.map_cons, List.idxOf_cons_ne _ differs.symm] at there
    rw [assigned]
    obtain ⟨plain, found, taken⟩ | ⟨source, notText, found, taken⟩ | ⟨found, taken⟩ :=
      sources.take_cases name <;> rw [taken]
    · rw [found] at here
      obtain ⟨yield, isYield, first, comes⟩ := rel_some_left here
      cases comes
      have onward : ∃ outs count, Writes (fun slot => states (slot + 1))
          (assign rest sources w').1 outs count ∧ outs.flatten = Template.referenceFrom rest yields :=
        ih (fun other occurs => by
          by_cases isHere : other = name
          · rw [isHere, found, isYield]
            exact .some ⟨0, .text plain⟩
          · exact later occurs isHere) w'
      obtain ⟨outs, count, writes, same⟩ := onward
      refine ⟨_, _, .source (.text plain) (.segment text writes), ?_⟩
      rw [Template.referenceFrom_of_kept (by rw [isYield]; rfl), isYield, ← same]
      rfl
    · rw [found] at here
      obtain ⟨yield, isYield, first, comes⟩ := rel_some_left here
      have onward : ∃ outs count, Writes (fun slot => states (slot + 1))
          (assign rest (Named.erase sources name) w').1 outs count ∧
            outs.flatten = Template.referenceFrom rest (Function.update yields name none) :=
        ih (fun other occurs => by
          by_cases isHere : other = name
          · rw [isHere, Named.get?_erase, if_pos rfl, Function.update_self]
            exact .none
          · rw [Named.get?_erase, if_neg isHere, Function.update_of_ne isHere]
            exact later occurs isHere) w'
      obtain ⟨outs, count, writes, same⟩ := onward
      refine ⟨_, _, .source comes (.segment text writes), ?_⟩
      rw [Template.referenceFrom, isYield, Option.bind_some, comes.kept notText, ← same]
      rfl
    · rw [found] at here
      have isNone := rel_none_left here
      have onward : ∃ outs count, Writes (fun slot => states (slot + 1))
          (assign rest sources w').1 outs count ∧ outs.flatten = Template.referenceFrom rest yields :=
        ih (fun other occurs => by
          by_cases isHere : other = name
          · rw [isHere, found, isNone]
            exact .none
          · exact later occurs isHere) w'
      obtain ⟨outs, count, writes, same⟩ := onward
      refine ⟨_, _, .absent (.segment text writes), ?_⟩
      rw [Template.referenceFrom_of_kept (by rw [isNone]; rfl), isNone, ← same]
      rfl

/-- What is written for the pieces of a template, up to the first error, is what the walk over the
    template writes. -/
theorem writes_start {t : Template} {sources : Sources} {yields : String → Option Yield}
    {states : Nat → Nat → EventLoop}
    (come : ∀ name ∈ t.slots, Option.Rel
      (fun source yield => ∃ count, source.YieldsIn (states (t.slots.idxOf name)) yield count)
      (Named.get? sources name) (yields name)) (w : EventLoop) :
    ∃ outs count, Writes states (start t sources w).1.pieces outs count ∧
      Item.upToError outs.flatten = t.reference yields := by
  obtain ⟨outs, count, writes, same⟩ := writes_assign come w
  refine ⟨_, count, .segment t.opening writes, ?_⟩
  rw [Template.reference, ← same, List.flatten_cons]

end TemplateStream

end ProgressiveHtml
