import ProgressiveHtml.Proofs.Document.Consumption
import ProgressiveHtml.Proofs.EventLoop.Crew

namespace ProgressiveHtml

/-!
# Template streams — renderings in company

The renderings that fill the slots of a template share an event loop with one another and with the late
fragments.

* `Portion` — a piece of a template, with the rendering that fills it as a member of the company;
* `TemplateStream.Drives.company` — whenever the stream is asked for a chunk, all of them go on.
-/

/-- A portion of a template: a piece that no rendering fills, or a slot whose rendering is in company. -/
inductive Portion where
  | still (piece : Piece) (unfilled : piece.rendering? = none)
  | moving (m : Member)

namespace Portion

/-- A portion at the beginning. -/
def fresh (now : Nat) : Piece → Portion
  | .segment text => still (.segment text) rfl
  | .slot none => still (.slot none) rfl
  | .slot (some (.text text)) => still (.slot (some (.text text))) rfl
  | .slot (some (.rendering r)) => moving (.fresh now r)
  | .slot (some (.sequence s)) => still (.slot (some (.sequence s))) rfl

/-- The piece as it was at the beginning. -/
def first : Portion → Piece
  | still piece _ => piece
  | moving m => .slot (some (.rendering m.whole))

/-- The piece as it is now. -/
def piece : Portion → Piece
  | still piece _ => piece
  | moving m => .slot (some (.rendering m.left))

def member? : Portion → Option Member
  | still .. => none
  | moving m => some m

/-- The renderings that fill the slots of a template. -/
def members (portions : List Portion) : List Member := portions.filterMap member?

/-- The rendering of the portion is woken if one of its sleeps is over. -/
def wake (now : Nat) : Portion → Portion
  | still piece unfilled => still piece unfilled
  | moving m => moving (m.wake now)

variable {portions portions' : List Portion}

@[simp] theorem first_fresh (now : Nat) (piece : Piece) : (fresh now piece).first = piece := by
  unfold fresh
  split <;> rfl

@[simp] theorem piece_fresh (now : Nat) (piece : Piece) : (fresh now piece).piece = piece := by
  unfold fresh
  split <;> rfl

theorem members_fresh (now : Nat) (pieces : List Piece) :
    members (pieces.map (fresh now)) = (Piece.renderings pieces).map (Member.fresh now) := by
  have each (piece : Piece) : (fresh now piece).member? = piece.rendering?.map (Member.fresh now) := by
    unfold fresh
    split <;> rfl
  rw [members, Piece.renderings, List.filterMap_map, List.map_filterMap]
  exact List.filterMap_congr fun piece _ => each piece

@[simp] theorem first_wake (now : Nat) (portion : Portion) : (portion.wake now).first = portion.first := by
  cases portion with
  | still => rfl
  | moving m => rw [wake, first, first, Member.wake_whole]

@[simp] theorem piece_wake (now : Nat) (portion : Portion) : (portion.wake now).piece = portion.piece := by
  cases portion with
  | still => rfl
  | moving m => rw [wake, piece, piece, Member.wake_left]

theorem members_wake (now : Nat) (portions : List Portion) :
    members (portions.map (wake now)) = (members portions).map (Member.wake now) := by
  rw [members, members, List.filterMap_map, List.map_filterMap]
  exact List.filterMap_congr fun portion _ => by cases portion <;> rfl

@[simp] theorem members_still (piece : Piece) (unfilled : piece.rendering? = none)
    (portions : List Portion) : members (still piece unfilled :: portions) = members portions := rfl

@[simp] theorem members_moving (m : Member) (portions : List Portion) :
    members (moving m :: portions) = m :: members portions := rfl

/-- The sleeps of the renderings are those that the stream waits for. -/
theorem alarms_subset (portions : List Portion) : ∀ m ∈ members portions,
    m.left.alarms ⊆ (portions.map piece).flatMap Piece.alarms := by
  intro m member alarm isRunning
  obtain ⟨portion, here, isMember⟩ := List.mem_filterMap.1 member
  refine List.mem_flatMap.2 ⟨portion.piece, List.mem_map_of_mem here, ?_⟩
  cases portion with
  | still => cases isMember
  | moving m' =>
    obtain rfl := Option.some.inj isMember
    exact isRunning

/-- The rendering of a portion, if it has one, has been asked to go on, and does not panic. -/
inductive Asked : Portion → Portion → Prop
  | still (piece : Piece) (unfilled : piece.rendering? = none) :
      Asked (still piece unfilled) (still piece unfilled)
  | moving (m : Member) (names : Pairing) (left : Rendering) {standing : Standing}
      (asked : standing ≠ .ripe) (sound : ∀ message, left ≠ .panicked message) :
      Asked (moving m) (moving { m with names, left, standing })

namespace Asked

theorem first_eq {portion portion' : Portion} (asked : Asked portion portion') :
    portion'.first = portion.first := by
  cases asked <;> rfl

theorem map_first (asked : List.Forall₂ Asked portions portions') :
    portions'.map first = portions.map first := by
  induction asked with
  | nil => rfl
  | cons asked _ ih => rw [List.map_cons, List.map_cons, asked.first_eq, ih]

/-- The renderings began when they did, can no longer go on, and do not panic. -/
theorem members (asked : List.Forall₂ Asked portions portions') {now : Nat}
    (together : ∀ m ∈ members portions, m.start = now) :
    ∀ m ∈ Portion.members portions', m.start = now ∧ m.standing ≠ .ripe ∧
      ∀ message, m.left ≠ .panicked message := by
  induction asked with
  | nil => exact fun _ none => absurd none List.not_mem_nil
  | cons asked _ ih =>
    cases asked with
    | still => exact ih together
    | moving m names left asked sound =>
      rw [members_moving, List.forall_mem_cons] at together ⊢
      exact ⟨⟨together.1, asked, sound⟩, ih together.2⟩

end Asked

end Portion

namespace TemplateStream

open EventLoop Portion

/-- A stream that is asked for a chunk lets its renderings go on, in company. -/
theorem Drives.company {portions : List Portion} {before after : List Member} {w w' : EventLoop}
    {past : List Happening} {pieces : List Piece}
    (company : Company w (before ++ (members portions ++ after))) (reached : Reached past w)
    (drives : Drives (portions.map Portion.piece) w pieces w') :
    ∃ portions' new, pieces = portions'.map Portion.piece ∧ List.Forall₂ Asked portions portions' ∧
      w.TakesIn new w' ∧ (∃ past, Reached past w') ∧
      Company w' (before ++ (members portions' ++
        (after ++ new.map fun task => Member.fresh w.now task.work))) := by
  induction portions generalizing before after w past pieces with
  | nil =>
    cases drives
    refine ⟨[], [], rfl, .nil, .refl _, ⟨past, reached⟩, ?_⟩
    simpa using company
  | cons portion rest ih =>
    cases portion with
    | still piece unfilled =>
      rw [List.map_cons, Portion.piece] at drives
      cases drives with
      | rendering => cases unfilled
      | other _ behind =>
        obtain ⟨portions', new, rfl, asked, takesIn, onward, together⟩ := ih company reached behind
        exact ⟨still piece unfilled :: portions', new, rfl, .cons (.still piece unfilled) asked,
          takesIn, onward, together⟩
    | moving m =>
      rw [List.map_cons, Portion.piece] at drives
      cases drives with
      | other unfilled => cases unfilled
      | rendering sound behind =>
        rw [members_moving, List.cons_append] at company
        -- This rendering goes on first, and those behind it in the company that it leaves.
        obtain ⟨names, standing, new, isAsked, tasks, together⟩ := company.ask
        obtain ⟨new', takesIn⟩ := m.left.poll_takesIn w
        obtain rfl : new = new' := List.append_cancel_left (tasks.symm.trans takesIn.tasks)
        obtain ⟨handed, steps⟩ := m.left.poll_steps w
        rw [List.append_assoc, List.append_cons] at together
        obtain ⟨portions', more, rfl, asked, takesMore, onward, together⟩ :=
          ih together (reached.steps steps) behind
        refine ⟨moving { m with names, standing, left := (m.left.poll w).1 } :: portions', new ++ more,
          rfl, .cons (.moving m names _ isAsked sound) asked, takesIn.trans takesMore, onward, ?_⟩
        rw [takesIn.now] at together
        simpa using together

end TemplateStream

end ProgressiveHtml
