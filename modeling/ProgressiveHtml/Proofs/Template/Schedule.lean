import ProgressiveHtml.Proofs.Template.Timetable

namespace ProgressiveHtml

/-!
# Template streams — on schedule

A stream that is asked for a chunk lets its renderings go on and walks over its pieces.  Each of them
brings what it brings on schedule.

* `TemplateStream.OnSchedule` — a template has been written out on schedule so far;
* `TemplateStream.Awaits` — what a stream waits for that has got nothing;
* `TemplateStream.Walked`, `TemplateStream.walk_walked` — what comes of walking over the pieces.
-/

open Rendering EventLoop

namespace TemplateStream

/-- The pieces of a template have been written out on schedule up to those that are left. -/
def OnSchedule (pieces : List Piece) (start : Nat) (ends yields : List (Nat × Item)) (left : List Piece)
    (w : EventLoop) : Prop :=
  ∃ passed shares out later, pieces = passed ++ left ∧
    Progress start ends yields passed shares out later left w

/-- A stream that has got nothing waits for the rendering in the next slot, which is asleep, or for
    patches, and fragments are on their way. -/
inductive Awaits (w : EventLoop) : List Portion → Prop
  | rendering {m : Member} {rest : List Portion} (asleep : m.standing = .asleep) :
      Awaits w (.moving m :: rest)
  | patches {unfilled} {rest : List Portion} (nothing : w.registry.ready = [])
      (underway : w.registry.tasks ≠ []) :
      Awaits w (.still (.slot (some (.sequence .patches))) unfilled :: rest)

variable {pieces : List Piece} {start : Nat} {ends yields : List (Nat × Item)} {w w' : EventLoop}
  {piece : Piece} {left : List Piece} {portion : Portion} {portions : List Portion}

/-- A piece has been written out that is no place for patches. -/
theorem OnSchedule.pass (schedule : OnSchedule pieces start ends yields (piece :: left) w)
    (plain : piece.isSequence = false) (time : Nat) (chunks : List Chunk)
    (brings : ∀ out, piece.Brings start out ⟨chunks.map (time, ·), time⟩) (past : time ≤ w.now)
    (inTime : ∀ {passed : Nat} {later : List (Nat × Item)},
      Piece.InTime start passed ends later w (piece :: left) → w.now ≤ max passed time) :
    OnSchedule pieces start ends (yields ++ chunks.map (w.now, .ok ·)) left w := by
  obtain ⟨passed, shares, out, later, rfl, progress⟩ := schedule
  have isNow : w.now = max (Share.closing start shares) time :=
    Nat.le_antisymm (inTime progress.inTime) (Nat.max_le.2 ⟨progress.since, past⟩)
  have brought : (Share.after (Share.closing start shares) (chunks.map (time, ·))).map
      (Prod.map id .ok) = chunks.map fun chunk => (w.now, (.ok chunk : Item)) := by
    simp [Share.after, Function.comp_def, ← isNow]
  have onward := progress.pass plain (brings out) isNow
  dsimp only at onward
  rw [brought] at onward
  exact ⟨_, _, out, later, List.append_cons passed piece left, onward⟩

/-- Fragments are taken in. -/
theorem OnSchedule.takesIn {new : List FragmentTask}
    (schedule : OnSchedule pieces start ends yields left w) (takesIn : w.TakesIn new w') :
    OnSchedule pieces start ends yields left w' := by
  obtain ⟨passed, shares, out, later, split, progress⟩ := schedule
  refine ⟨passed, shares, out, later, split,
    progress.congr takesIn.now takesIn.ready takesIn.closed fun idle => ?_⟩
  rw [takesIn.tasks] at idle
  exact (List.append_eq_nil_iff.1 idle).1

/-- What comes of walking over the pieces of a stream. -/
structure Walked (pieces : List Piece) (start : Nat) (ends yields : List (Nat × Item))
    (portions : List Portion) (w : EventLoop) (answer : StreamPoll TemplateStream) (w' : EventLoop)
    (next : TemplateStream) (left : List Portion) : Prop where
  suffix : left <:+ portions
  shown : next.pieces = left.map Portion.piece
  finished : next.finished → left = []
  schedule : OnSchedule pieces start ends (yields ++ answer.items.map (w.now, ·))
    (left.map Portion.first) w'
  unnoticed : w.Unnoticed w'
  reached : ∃ past, Reached past w'
  waits : answer = .pending next → Awaits w' left
  ended : answer = .ready none next → left = []

/-- What comes of walking on over the pieces, if no error does. -/
def WalksOn (pieces : List Piece) (start : Nat) (ends yields : List (Nat × Item))
    (portions : List Portion) (w : EventLoop) (result : StreamPoll TemplateStream × EventLoop) : Prop :=
  ∀ next, result.1.next? = some next → (∀ error, .error error ∉ result.1.items) →
    ∃ left, Walked pieces start ends yields portions w result.1 result.2 next left

namespace WalksOn

variable {text : String} {result : StreamPoll TemplateStream × EventLoop} {past : List Happening}

/-- Something has happened before that nobody noticed. -/
theorem after {v : EventLoop} (unnoticed : w.Unnoticed v)
    (walksOn : WalksOn pieces start ends yields portions v result) :
    WalksOn pieces start ends yields portions w result := by
  intro next isNext clean
  obtain ⟨left, walked⟩ := walksOn next isNext clean
  exact ⟨left, { walked with
    schedule := unnoticed.now ▸ walked.schedule
    unnoticed := unnoticed.trans walked.unnoticed }⟩

/-- A portion is passed first. -/
theorem skip (walksOn : WalksOn pieces start ends yields portions w result) :
    WalksOn pieces start ends yields (portion :: portions) w result := by
  intro next isNext clean
  obtain ⟨left, walked⟩ := walksOn next isNext clean
  exact ⟨left, { walked with suffix := walked.suffix.trans (List.suffix_cons _ _) }⟩

/-- Nothing comes yet. -/
theorem pending {position : Nat} (reached : Reached past w)
    (schedule : OnSchedule pieces start ends yields (portions.map Portion.first) w)
    (waits : Awaits w portions) :
    WalksOn pieces start ends yields portions w
      (.pending { position, pieces := portions.map Portion.piece }, w) := by
  rintro next isNext -
  obtain rfl := Option.some.inj isNext
  refine ⟨portions, List.suffix_rfl, rfl, fun finished => ?_, ?_, .refl w, ⟨past, reached⟩,
    fun _ => waits, fun ended => ?_⟩
  · cases finished
  · simpa [Polled.items] using schedule
  · cases ended

/-- A chunk comes. -/
theorem chunk {chunk : Chunk} {position : Nat} (reached : Reached past w)
    (schedule : OnSchedule pieces start ends (yields ++ [(w.now, .ok chunk)])
      (portions.map Portion.first) w) :
    WalksOn pieces start ends yields portions w
      (.ready (some (.ok chunk)) { position, pieces := portions.map Portion.piece }, w) := by
  rintro next isNext -
  obtain rfl := Option.some.inj isNext
  refine ⟨portions, List.suffix_rfl, rfl, fun finished => ?_, schedule, .refl w, ⟨past, reached⟩,
    fun waits => ?_, fun ended => ?_⟩
  · cases finished
  · cases waits
  · cases ended

/-- A piece that brings a text is passed, and the walk ends there unless the text is empty. -/
theorem pass {chunks : List Chunk} {chunk : Chunk} {position : Nat} (reached : Reached past w)
    (isWritten : chunks = if text.isEmpty then [] else [chunk])
    (schedule : OnSchedule pieces start ends (yields ++ chunks.map (w.now, .ok ·))
      (portions.map Portion.first) w)
    (onward : OnSchedule pieces start ends yields (portions.map Portion.first) w →
      WalksOn pieces start ends yields portions w result) :
    WalksOn pieces start ends yields (portion :: portions) w
      (if text.isEmpty then result
        else (.ready (some (.ok chunk)) { position, pieces := portions.map Portion.piece }, w)) := by
  subst isWritten
  by_cases blank : text.isEmpty
  · simp only [blank, if_true, List.map_nil, List.append_nil] at schedule ⊢
    exact (onward schedule).skip
  · simp only [blank, Bool.false_eq_true, if_false] at schedule ⊢
    exact (WalksOn.chunk reached schedule).skip

/-- At the place of the patches. -/
theorem patches {unfilled} {position : Nat} (reached : Reached past w)
    (schedule : OnSchedule pieces start ends yields
      (.slot (some (.sequence .patches)) :: portions.map Portion.first) w)
    (onward : ∀ {v : EventLoop}, w.Unnoticed v → (∃ past, Reached past v) →
      OnSchedule pieces start ends yields (portions.map Portion.first) v →
        WalksOn pieces start ends yields portions v (walk (portions.map Portion.piece) (position + 1) v)) :
    WalksOn pieces start ends yields (.still (.slot (some (.sequence .patches))) unfilled :: portions) w
      (walk (.slot (some (.sequence .patches)) :: portions.map Portion.piece) position w) := by
  obtain ⟨passed, shares, out, later, split, progress⟩ := schedule
  rcases asked : w.drain with ⟨answer, w'⟩
  have unnoticed := drain_unnoticed asked
  have went := reached.ask asked
  rw [walk, Sequence.poll, asked]
  cases answer with
  | item item =>
    cases item with
    | error error => exact fun _ _ clean => absurd List.mem_cons_self (clean error)
    | ok chunk =>
      obtain ⟨time, later', onward⟩ := progress.element asked
      have onward : OnSchedule pieces start ends (yields ++ [(w'.now, .ok chunk)])
          ((Portion.still _ unfilled :: portions).map Portion.first) w' :=
        unnoticed.now ▸ ⟨_, _, _, _, split, onward⟩
      exact (WalksOn.chunk went onward).after unnoticed
  | finished =>
    have idle : w'.registry.tasks = [] := by
      have finished : w.registry.drain.1 = .finished := by rw [← w.drain_registry.1, asked]
      rw [unnoticed.tasks, reached.idle_of_drain finished]
    have split := split.trans (List.append_cons _ _ _)
    have unnoticed := unnoticed.trans (close_unnoticed idle)
    have schedule : OnSchedule pieces start ends yields (portions.map Portion.first) w'.close :=
      ⟨_, _, _, _, split, progress.exhausted reached asked⟩
    exact (onward unnoticed ⟨_, went.close⟩ schedule).skip.after unnoticed
  | waiting =>
    have same := registry_of_drain_waiting asked
    -- Nothing is ready, yet something is outstanding: so a fragment is on its way.
    have waits : Awaits w' (.still (.slot (some (.sequence .patches))) unfilled :: portions) := by
      have answered := w.drain_registry.1
      rw [asked] at answered
      have stillOpen : w.registry.closed = false := progress.closed
      have pending := reached.pending_eq stillOpen
      unfold Registry.drain at answered
      split at answered
      · cases answered
      · rename_i nothing
        refine .patches (same ▸ nothing) fun idle => ?_
        rw [same] at idle
        rw [nothing, idle] at pending
        simp [pending] at answered
    have onward : OnSchedule pieces start ends yields
        (.slot (some (.sequence .patches)) :: portions.map Portion.first) w' :=
      ⟨_, _, _, _, split,
        progress.congr unnoticed.now (by rw [same]) (by rw [same]) (by rw [same]; exact id)⟩
    exact (pending went onward waits).after unnoticed

/-- At a slot with a rendering. -/
theorem rendering {m : Member} {position : Nat} (stands : m.Stands w)
    (grown : m.whole.Becomes m.left) (together : m.start = start)
    (asked : m.standing ≠ .ripe) (sound : ∀ message, m.left ≠ .panicked message)
    (reached : Reached past w)
    (schedule : OnSchedule pieces start ends yields
      (.slot (some (.rendering m.whole)) :: portions.map Portion.first) w)
    (onward : OnSchedule pieces start ends yields (portions.map Portion.first) w →
      WalksOn pieces start ends yields portions w (walk (portions.map Portion.piece) (position + 1) w)) :
    WalksOn pieces start ends yields (.moving m :: portions) w
      (walk (.slot (some (.rendering m.left)) :: portions.map Portion.piece) position w) := by
  cases ends : m.left.isOver with
  | false =>
    have asleep : m.standing = .asleep := by
      have notOver := mt (stands.isOver_iff asked).2 (by simp [ends])
      cases standing : m.standing <;> simp_all
    rw [walk_of_waits ends]
    exact .pending reached schedule (.rendering asleep)
  | true =>
    -- It has come to its end as it does alone, but for its markup.
    obtain ⟨alone, time, comes, same, past⟩ := stands.ended ((stands.isOver_iff asked).1 ends)
    cases left : m.left with
    | done markup =>
      rw [left] at same grown
      obtain ⟨text, rfl⟩ := exists_markup same
      rw [Member.Ends, together] at comes
      refine .pass reached rfl (schedule.pass rfl _ _ (fun _ => .rendering comes grown) past
        fun inTime => ?_) onward
      exact inTime _ _ comes
    | failed error => exact fun next isNext clean => absurd List.mem_cons_self (clean error)
    | panicked message => exact absurd left (sound message)
    | _ =>
      rw [left] at ends
      cases ends

end WalksOn

/-- Walking over the pieces of a stream whose renderings have been asked. -/
theorem walk_walksOn {portions : List Portion} {past : List Happening} (position : Nat)
    (company : Company w (Portion.members portions))
    (asked : ∀ m ∈ Portion.members portions, m.start = start ∧ m.standing ≠ .ripe ∧
      ∀ message, m.left ≠ .panicked message)
    (reached : Reached past w)
    (schedule : OnSchedule pieces start ends yields (portions.map Portion.first) w) :
    WalksOn pieces start ends yields portions w
      (walk (portions.map Portion.piece) position w) := by
  induction portions generalizing position w past with
  | nil =>
    rintro next isNext -
    obtain rfl := Option.some.inj isNext
    refine ⟨[], List.suffix_rfl, rfl, fun _ => rfl, ?_, .refl w, ⟨past, reached⟩, ?_, fun _ => rfl⟩
    · simpa [walk, Polled.items] using schedule
    · exact fun waits => by cases waits
  | cons portion rest ih =>
    cases portion with
    | still piece unfilled =>
      have onward position schedule := ih position company asked reached schedule
      cases piece with
      | segment text =>
        refine .pass reached rfl (schedule.pass rfl 0 _ (fun _ => .segment text)
          (Nat.zero_le _) fun inTime => ?_) (onward _)
        exact Nat.le_trans inTime (Nat.le_max_left _ _)
      | slot source =>
        cases source with
        | none =>
          have schedule := schedule.pass rfl 0 [] (fun _ => .absent)
            (Nat.zero_le _) fun inTime => Nat.le_trans inTime (Nat.le_max_left _ _)
          rw [List.map_nil, List.append_nil] at schedule
          exact (onward (position + 1) schedule).skip
        | some source =>
          cases source with
          | text text =>
            refine .pass reached rfl (schedule.pass rfl 0 _ (fun _ => .text text)
              (Nat.zero_le _) fun inTime => ?_) (onward _)
            exact Nat.le_trans inTime (Nat.le_max_left _ _)
          | rendering r => cases unfilled
          | sequence s =>
            obtain ⟨passed, shares, out, later, split, progress⟩ := schedule
            obtain ⟨rfl, -⟩ := progress.only
            refine .patches reached ⟨passed, shares, out, later, split, progress⟩ ?_
            rintro v unnoticed ⟨past, reached⟩ schedule
            have company := company.congr unnoticed.now unnoticed.cells unnoticed.used
            exact ih _ company asked reached schedule
    | moving m =>
      obtain ⟨together, notRipe, sound⟩ := asked m List.mem_cons_self
      -- What is behind the rendering is looked at only once it has been written out.
      have others := company.sublist (List.sublist_cons_self m _)
      refine .rendering (company.stands m List.mem_cons_self) (company.grown m List.mem_cons_self)
        together notRipe sound reached schedule ?_
      exact ih _ others (fun other member => asked other (List.mem_cons_of_mem m member)) reached

end TemplateStream

end ProgressiveHtml
