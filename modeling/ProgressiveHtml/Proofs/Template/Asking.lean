import ProgressiveHtml.Template.Stream

namespace ProgressiveHtml

/-!
# Template streams — what asking for a chunk does

Asking a template stream lets the renderings of all slots go on in order, and then walks over the
pieces up to the first that brings something or is not ready.  Everything that holds of all streams
comes by induction on these two.

* `TemplateStream.Drives`, `TemplateStream.Panics`, `TemplateStream.drives_or_panics` — the renderings
  go on, or one of them panics;
* `TemplateStream.Walks`, `TemplateStream.walks` — the walk over the pieces that are left;
* `TemplateStream.Asks`, `TemplateStream.asks` — asking for a chunk.
-/

namespace Piece

/-- The rendering that fills a piece. -/
def rendering? : Piece → Option Rendering
  | slot (some (.rendering r)) => some r
  | _ => none

/-- The renderings that fill pieces, in order. -/
def renderings (pieces : List Piece) : List Rendering := pieces.filterMap rendering?

theorem mem_renderings {pieces : List Piece} {r : Rendering} :
    r ∈ renderings pieces ↔ .slot (some (.rendering r)) ∈ pieces := by
  have filling (piece : Piece) : piece.rendering? = some r ↔ piece = .slot (some (.rendering r)) := by
    unfold rendering?
    split <;> simp_all
  simp [renderings, filling]

/-- The renderings behind a piece are among all. -/
theorem mem_renderings_cons {piece : Piece} {rest : List Piece} {r : Rendering}
    (behind : r ∈ renderings rest) : r ∈ renderings (piece :: rest) :=
  mem_renderings.2 (List.mem_cons_of_mem _ (mem_renderings.1 behind))

theorem renderings_cons_rendering (r : Rendering) (rest : List Piece) :
    renderings (.slot (some (.rendering r)) :: rest) = r :: renderings rest := rfl

theorem renderings_cons_of_none {piece : Piece} (unfilled : piece.rendering? = none)
    (rest : List Piece) : renderings (piece :: rest) = renderings rest :=
  List.filterMap_cons_none unfilled

theorem ne_rendering {piece : Piece} (unfilled : piece.rendering? = none) (r : Rendering) :
    piece ≠ .slot (some (.rendering r)) := by
  rintro rfl
  cases unfilled

/-- A piece is filled by a rendering, or by nothing that is rendered. -/
theorem rendering_cases (piece : Piece) : (∃ r, piece = .slot (some (.rendering r))) ∨
    piece.rendering? = none ∧ ∀ rest, renderings (piece :: rest) = renderings rest := by
  by_cases filled : ∃ r, piece = .slot (some (.rendering r))
  · exact .inl filled
  · have unfilled : piece.rendering? = none := by
      unfold rendering?
      split
      · exact absurd ⟨_, rfl⟩ filled
      · rfl
    exact .inr ⟨unfilled, renderings_cons_of_none unfilled⟩

/-- A piece that brings nothing and needs nothing more, with the number of slots that it takes up. -/
inductive Blank : Piece → Nat → Prop
  | segment {text : String} (isEmpty : text.isEmpty = true) : Blank (.segment text) 0
  | absent : Blank (.slot none) 1
  | text {text : String} (isEmpty : text.isEmpty = true) : Blank (.slot (some (.text text))) 1
  | markup {markup : String} (isEmpty : markup.isEmpty = true) :
      Blank (.slot (some (.rendering (.done markup)))) 1

/-- A piece that is a chunk to be written, with the number of slots that it takes up. -/
inductive Written : Piece → Nat → Chunk → Prop
  | segment {text : String} (filled : ¬text.isEmpty = true) : Written (.segment text) 0 (.literal text)
  | text {text : String} (filled : ¬text.isEmpty = true) :
      Written (.slot (some (.text text))) 1 (.content text)
  | markup {markup : String} (filled : ¬markup.isEmpty = true) :
      Written (.slot (some (.rendering (.done markup)))) 1 (.content markup)

end Piece

/-- A rendering that is neither done nor failed nor panicked waits. -/
theorem Rendering.isOver_eq_false {r : Rendering} (notDone : ∀ markup, r ≠ .done markup)
    (notFailed : ∀ error, r ≠ .failed error) (notPanicked : ∀ message, r ≠ .panicked message) :
    r.isOver = false := by
  cases r with
  | done markup => exact absurd rfl (notDone markup)
  | failed error => exact absurd rfl (notFailed error)
  | panicked message => exact absurd rfl (notPanicked message)
  | _ => rfl

namespace TemplateStream

variable {piece : Piece} {pieces rest left : List Piece} {r : Rendering} {w w' : EventLoop}
  {position : Nat}

/-! ### The renderings go on -/

/-- Pieces that no rendering fills do not go on. -/
theorem drive_cons_other (unfilled : piece.rendering? = none) (rest : List Piece) (w : EventLoop) :
    drive (piece :: rest) w = ((drive rest w).1.map (piece :: ·), (drive rest w).2) := by
  rw [drive]
  exact Piece.ne_rendering unfilled

/-- A rendering that does not panic goes on, and then the pieces behind it. -/
theorem drive_cons_rendering (sound : ∀ message, (r.poll w).1 ≠ .panicked message)
    (rest : List Piece) :
    drive (.slot (some (.rendering r)) :: rest) w =
      ((drive rest (r.poll w).2).1.map (.slot (some (.rendering (r.poll w).1)) :: ·),
        (drive rest (r.poll w).2).2) := by
  rw [drive]
  split <;> rename_i stands <;> rw [stands] at sound ⊢
  exact absurd rfl (sound _)

/-- A rendering that panics is the last that goes on. -/
theorem drive_cons_panicked {message : String} (panics : (r.poll w).1 = .panicked message)
    (rest : List Piece) :
    drive (.slot (some (.rendering r)) :: rest) w = (.error message, (r.poll w).2) := by
  rw [drive, show r.poll w = (.panicked message, (r.poll w).2) from Prod.ext panics rfl]

/-- The renderings of the pieces go on in order, each from the state that the one before it leaves, and
    none of them panics: the pieces and the state that are left. -/
inductive Drives : List Piece → EventLoop → List Piece → EventLoop → Prop
  | nil (w : EventLoop) : Drives [] w [] w
  | rendering {r : Rendering} {rest left : List Piece} {w w' : EventLoop}
      (sound : ∀ message, (r.poll w).1 ≠ .panicked message)
      (behind : Drives rest (r.poll w).2 left w') :
      Drives (.slot (some (.rendering r)) :: rest) w
        (.slot (some (.rendering (r.poll w).1)) :: left) w'
  | other {piece : Piece} {rest left : List Piece} {w w' : EventLoop}
      (unfilled : piece.rendering? = none) (behind : Drives rest w left w') :
      Drives (piece :: rest) w (piece :: left) w'

theorem Drives.of_poll {r' : Rendering} {w'' : EventLoop} (asked : r.poll w = (r', w'))
    (sound : ∀ message, r' ≠ .panicked message) (behind : Drives rest w' left w'') :
    Drives (.slot (some (.rendering r)) :: rest) w (.slot (some (.rendering r')) :: left) w'' := by
  obtain ⟨rfl, rfl⟩ : (r.poll w).1 = r' ∧ (r.poll w).2 = w' := by rw [asked]; exact ⟨rfl, rfl⟩
  exact .rendering sound behind

theorem Drives.drive (drives : Drives pieces w left w') :
    TemplateStream.drive pieces w = (.ok left, w') := by
  induction drives with
  | nil => rfl
  | rendering sound _ ih =>
    rw [drive_cons_rendering sound, ih]
    rfl
  | other unfilled _ ih =>
    rw [drive_cons_other unfilled, ih]
    rfl

/-- The renderings of the pieces go on in order up to one that panics: its message, and the state that it
    leaves. -/
inductive Panics : List Piece → EventLoop → String → EventLoop → Prop
  | here {r : Rendering} {w : EventLoop} {message : String} (panics : (r.poll w).1 = .panicked message)
      (rest : List Piece) : Panics (.slot (some (.rendering r)) :: rest) w message (r.poll w).2
  | rendering {r : Rendering} {rest : List Piece} {w w' : EventLoop} {message : String}
      (sound : ∀ message, (r.poll w).1 ≠ .panicked message)
      (behind : Panics rest (r.poll w).2 message w') :
      Panics (.slot (some (.rendering r)) :: rest) w message w'
  | other {piece : Piece} {rest : List Piece} {w w' : EventLoop} {message : String}
      (unfilled : piece.rendering? = none) (behind : Panics rest w message w') :
      Panics (piece :: rest) w message w'

theorem Panics.drive {message : String} (panics : Panics pieces w message w') :
    TemplateStream.drive pieces w = (.error message, w') := by
  induction panics with
  | here panics rest => exact drive_cons_panicked panics rest
  | rendering sound _ ih =>
    rw [drive_cons_rendering sound, ih]
    rfl
  | other unfilled _ ih =>
    rw [drive_cons_other unfilled, ih]
    rfl

/-- All renderings go on, or one of them panics. -/
theorem drives_or_panics (pieces : List Piece) (w : EventLoop) :
    (∃ left w', Drives pieces w left w') ∨ ∃ message w', Panics pieces w message w' := by
  induction pieces generalizing w with
  | nil => exact .inl ⟨[], w, .nil w⟩
  | cons piece rest ih =>
    obtain ⟨r, rfl⟩ | ⟨unfilled, -⟩ := piece.rendering_cases
    · by_cases panics : ∃ message, (r.poll w).1 = .panicked message
      · obtain ⟨message, panics⟩ := panics
        exact .inr ⟨message, _, .here panics rest⟩
      · have sound (message : String) : (r.poll w).1 ≠ .panicked message :=
          fun same => panics ⟨message, same⟩
        obtain ⟨left, w', drives⟩ | ⟨message, w', panics⟩ := ih (r.poll w).2
        · exact .inl ⟨_, w', .rendering sound drives⟩
        · exact .inr ⟨message, w', .rendering sound panics⟩
    · obtain ⟨left, w', drives⟩ | ⟨message, w', panics⟩ := ih w
      · exact .inl ⟨_, w', .other unfilled drives⟩
      · exact .inr ⟨message, w', .other unfilled panics⟩

/-- No time passes while renderings go on. -/
theorem Drives.now (drives : Drives pieces w left w') : w'.now = w.now := by
  induction drives with
  | nil => rfl
  | @rendering r _ _ w _ _ _ ih => exact ih.trans (r.poll_now w)
  | other _ _ ih => exact ih

theorem Panics.now {message : String} (panics : Panics pieces w message w') : w'.now = w.now := by
  induction panics with
  | @here r w => exact r.poll_now w
  | @rendering r _ w _ _ _ _ ih => exact ih.trans (r.poll_now w)
  | other _ _ ih => exact ih

/-- The renderings in front go on, and then those behind. -/
theorem Drives.append {behind more : List Piece} {w'' : EventLoop} (drives : Drives pieces w left w')
    (onward : Drives behind w' more w'') : Drives (pieces ++ behind) w (left ++ more) w'' := by
  induction drives with
  | nil => exact onward
  | rendering sound _ ih => exact .rendering sound (ih onward)
  | other unfilled _ ih => exact .other unfilled (ih onward)

/-- If one in front panics, those behind do not go on. -/
theorem Panics.append {message : String} (panics : Panics pieces w message w') (behind : List Piece) :
    Panics (pieces ++ behind) w message w' := by
  induction panics with
  | here panics rest => exact .here panics (rest ++ behind)
  | rendering sound _ ih => exact .rendering sound ih
  | other unfilled _ ih => exact .other unfilled ih

/-! ### The walk -/

/-- What the walk over pieces comes to, after a number of slots have been passed: blank pieces and
    sequences that have finished are passed, and it stops at the first other piece. -/
inductive Walks : List Piece → Nat → EventLoop → StreamPoll TemplateStream × EventLoop → Prop
  | ended (position : Nat) (w : EventLoop) :
      Walks [] position w (.ready none { position, pieces := [], finished := true }, w)
  | blank {piece : Piece} {slots : Nat} {rest : List Piece} {position : Nat} {w : EventLoop}
      {result : StreamPoll TemplateStream × EventLoop} (isBlank : piece.Blank slots)
      (onward : Walks rest (position + slots) w result) : Walks (piece :: rest) position w result
  | written {piece : Piece} {slots : Nat} {chunk : Chunk} (isWritten : piece.Written slots chunk)
      (rest : List Piece) (position : Nat) (w : EventLoop) :
      Walks (piece :: rest) position w
        (.ready (some (.ok chunk)) { position := position + slots, pieces := rest }, w)
  | failed (error : RenderError) (rest : List Piece) (position : Nat) (w : EventLoop) :
      Walks (.slot (some (.rendering (.failed error))) :: rest) position w
        (fail error (position + 1) (.slot none :: rest) w)
  | pending {r : Rendering} (notDone : ∀ markup, r ≠ .done markup)
      (notFailed : ∀ error, r ≠ .failed error) (rest : List Piece) (position : Nat) (w : EventLoop) :
      Walks (.slot (some (.rendering r)) :: rest) position w
        (.pending { position, pieces := .slot (some (.rendering r)) :: rest }, w)
  | item {s s' : Sequence} {chunk : Chunk} {w w' : EventLoop}
      (asked : s.poll w = (.item (.ok chunk), s', w')) (rest : List Piece) (position : Nat) :
      Walks (.slot (some (.sequence s)) :: rest) position w
        (.ready (some (.ok chunk)) { position, pieces := .slot (some (.sequence s')) :: rest }, w')
  | error {s s' : Sequence} {error : RenderError} {w w' : EventLoop}
      (asked : s.poll w = (.item (.error error), s', w')) (rest : List Piece) (position : Nat) :
      Walks (.slot (some (.sequence s)) :: rest) position w
        (fail error position (.slot (some (.sequence s')) :: rest) w')
  | finished {s s' : Sequence} {rest : List Piece} {position : Nat} {w w' : EventLoop}
      {result : StreamPoll TemplateStream × EventLoop} (asked : s.poll w = (.finished, s', w'))
      (onward : Walks rest (position + 1) (s'.release w') result) :
      Walks (.slot (some (.sequence s)) :: rest) position w result
  | waiting {s s' : Sequence} {w w' : EventLoop} (asked : s.poll w = (.waiting, s', w'))
      (rest : List Piece) (position : Nat) :
      Walks (.slot (some (.sequence s)) :: rest) position w
        (.pending { position, pieces := .slot (some (.sequence s')) :: rest }, w')

theorem walks (pieces : List Piece) (position : Nat) (w : EventLoop) :
    Walks pieces position w (walk pieces position w) := by
  fun_induction walk pieces position w with
  | case1 position w => exact .ended position w
  | case2 _ _ _ _ isEmpty ih => exact .blank (.segment isEmpty) ih
  | case3 _ rest position w filled => exact .written (.segment filled) rest position w
  | case4 _ _ _ ih => exact .blank .absent ih
  | case5 _ _ _ _ isEmpty ih => exact .blank (.text isEmpty) ih
  | case6 _ rest position w filled => exact .written (.text filled) rest position w
  | case7 _ _ _ _ isEmpty ih => exact .blank (.markup isEmpty) ih
  | case8 _ rest position w filled => exact .written (.markup filled) rest position w
  | case9 error rest position w => exact .failed error rest position w
  | case10 _ rest position w notDone notFailed => exact .pending notDone notFailed rest position w
  | case11 _ rest position _ _ _ _ asked => exact .item asked rest position
  | case12 _ rest position _ _ _ _ asked => exact .error asked rest position
  | case13 _ _ _ _ _ _ asked ih => exact .finished asked ih
  | case14 _ rest position _ _ _ asked => exact .waiting asked rest position

/-- The walk stays at a rendering that is not over. -/
theorem walk_of_waits (waits : r.isOver = false) (rest : List Piece) (position : Nat)
    (w : EventLoop) : walk (.slot (some (.rendering r)) :: rest) position w =
      (.pending { position, pieces := .slot (some (.rendering r)) :: rest }, w) := by
  cases r with
  | done | failed | panicked => cases waits
  | _ => rfl

/-- A walk that comes to its end leaves a stream that has ended. -/
theorem Walks.finished_of_ready {result : StreamPoll TemplateStream × EventLoop} {last : TemplateStream}
    (walks : Walks pieces position w result) (ends : result.1 = .ready none last) :
    last.finished = true := by
  induction walks with
  | ended =>
    cases ends
    rfl
  | blank _ _ ih | finished _ _ ih => exact ih ends
  | _ => cases ends

/-! ### Asking for a chunk -/

/-- What asking a stream comes to: one that has ended stays so, a rendering that panics ends it, and
    otherwise the pieces are walked over that the renderings leave. -/
inductive Asks (s : TemplateStream) (w : EventLoop) : StreamPoll TemplateStream × EventLoop → Prop
  | ended (finished : s.finished = true) : Asks s w (.ready none s, w)
  | panicked {message : String} {w' : EventLoop} (goesOn : s.finished = false)
      (panics : Panics s.pieces w message w') : Asks s w (.panicked message, w')
  | walked {left : List Piece} {w' : EventLoop} {result : StreamPoll TemplateStream × EventLoop}
      (goesOn : s.finished = false) (drives : Drives s.pieces w left w')
      (walks : Walks left s.position w' result) : Asks s w result

/-- A stream that has ended reports its end, and asks nothing. -/
theorem poll_of_finished {s : TemplateStream} (finished : s.finished = true) (w : EventLoop) :
    s.poll w = (.ready none s, w) := by
  rw [poll, if_pos finished]

/-- Where no rendering panics, asking walks over the pieces that the renderings leave. -/
theorem Drives.poll {s : TemplateStream} (drives : Drives s.pieces w left w')
    (goesOn : s.finished = false) : s.poll w = walk left s.position w' := by
  rw [TemplateStream.poll, goesOn, if_neg Bool.false_ne_true, drives.drive]

theorem Panics.poll {s : TemplateStream} {message : String} (panics : Panics s.pieces w message w')
    (goesOn : s.finished = false) : s.poll w = (.panicked message, w') := by
  rw [TemplateStream.poll, goesOn, if_neg Bool.false_ne_true, panics.drive]

theorem asks (s : TemplateStream) (w : EventLoop) : Asks s w (s.poll w) := by
  cases goesOn : s.finished with
  | true =>
    rw [poll_of_finished goesOn]
    exact .ended goesOn
  | false =>
    obtain ⟨left, w', drives⟩ | ⟨message, w', panics⟩ := drives_or_panics s.pieces w
    · rw [drives.poll goesOn]
      exact .walked goesOn drives (walks left s.position w')
    · rw [panics.poll goesOn]
      exact .panicked goesOn panics

theorem Drives.walks_poll {s : TemplateStream} (drives : Drives s.pieces w left w')
    (goesOn : s.finished = false) : Walks left s.position w' (s.poll w) := by
  rw [drives.poll goesOn]
  exact walks left s.position w'

end TemplateStream

end ProgressiveHtml
