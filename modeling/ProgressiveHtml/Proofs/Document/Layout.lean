import ProgressiveHtml.Proofs.Related
import ProgressiveHtml.Proofs.Rendering.Course
import ProgressiveHtml.Proofs.Rendering.Silent
import ProgressiveHtml.Proofs.Template.Move

namespace ProgressiveHtml

/-!
# Documents — what stands where

Every part of a template has a role in a document: a segment of the pattern, the place of the body,
the place of the patches, or something that neither hands in fragments nor brings patches.  At any
time some parts have been passed, each having written what its role says, and the pieces that are
left play the other roles.

* `Role`, `Role.Orderly` — the roles, and the order in which a document needs them;
* `Role.Plays`, `Role.Wrote` — what a piece is before its turn, and what it has written after it;
* `Layout` — how far a document has been written out;
* `Role.Turn` — what can happen to the parts;
* `Layout.move`, `Layout.background` — nothing that happens breaks the layout.
-/

/-- What a part of a template is for. -/
inductive Role where
  /-- Text of the pattern. -/
  | segment (text : String)
  /-- A slot that neither hands in fragments nor brings patches. -/
  | plain
  /-- The slot of the body. -/
  | body
  /-- The slot of the patches. -/
  | patches
  deriving DecidableEq

/-- A source that neither hands in fragments nor brings patches. -/
def Source.Plain : Source → Prop
  | .text _ => True
  | .rendering r => r.Silent
  | .sequence _ => False

namespace Role

/-- Whether a part may stand somewhere before another one: the body and the patches have one place
    each, and the body comes first. -/
def MayPrecede (a b : Role) : Prop :=
  ¬(a = .body ∧ b = .body) ∧ ¬(a = .patches ∧ (b = .patches ∨ b = .body))

/-- The roles of a document that has a place for the body, and behind it one for the patches. -/
structure Orderly (roles : List Role) : Prop where
  ordered : roles.Pairwise MayPrecede
  body : .body ∈ roles
  patches : .patches ∈ roles

/-- What a piece is before its turn, when `r` is what is left of the body. -/
def Plays (r : Rendering) : Role → Piece → Prop
  | segment text, piece => piece = .segment text
  | plain, piece => ∃ source, piece = .slot source ∧ ∀ given, source = some given → given.Plain
  | body, piece => piece = .slot (some (.rendering r))
  | patches, piece => piece = .slot (some (.sequence .patches))

/-- What a part has written after its turn, when `r` is what is left of the body and `drained` are
    the patches that have come. -/
def Wrote (r : Rendering) (drained : List Chunk) : Role → List Chunk → Prop
  | segment text, out => out = Chunk.literals text
  | plain, out => ∃ text, out = Chunk.contents text
  | body, out => ∃ text, r = .done text ∧ out = Chunk.contents text
  | patches, out => out = drained

/-- A sequence plays the part of the patches, or none. -/
theorem Plays.of_sequence {r : Rendering} {role : Role} {s : Sequence}
    (plays : role.Plays r (.slot (some (.sequence s)))) : role = .patches ∧ s = .patches := by
  cases role with
  | segment | body => simp [Plays] at plays
  | plain =>
    obtain ⟨source, same, isPlain⟩ := plays
    obtain rfl : some (.sequence s) = source := by simpa using same
    exact (isPlain _ rfl).elim
  | patches => exact ⟨rfl, by simpa [Plays] using plays⟩

/-- Only the part of the body depends on how far the body has got. -/
theorem Plays.other {r r' : Rendering} {role : Role} {piece : Piece} (other : role ≠ .body)
    (plays : role.Plays r piece) : role.Plays r' piece := by
  cases role with
  | body => exact absurd rfl other
  | _ => exact plays

theorem Wrote.other {r r' : Rendering} {drained : List Chunk} {role : Role} {out : List Chunk}
    (other : role ≠ .body) (wrote : role.Wrote r drained out) : role.Wrote r' drained out := by
  cases role with
  | body => exact absurd rfl other
  | _ => exact wrote

/-- Only the part of the patches depends on the patches that have come. -/
theorem Wrote.drain {r : Rendering} {drained drained' : List Chunk} {role : Role}
    {out : List Chunk} (other : role ≠ .patches) (wrote : role.Wrote r drained out) :
    role.Wrote r drained' out := by
  cases role with
  | patches => exact absurd rfl other
  | _ => exact wrote

namespace Orderly

variable {passed todo before after : List Role}

/-- As long as the body is still to come, the patches are. -/
theorem patches_of_body (orderly : Orderly (passed ++ todo)) (body : .body ∈ todo) :
    .patches ∈ todo := by
  obtain here | there := List.mem_append.1 orderly.patches
  · have ordered := (List.pairwise_append.1 orderly.ordered).2.2 _ here _ body
    exact absurd ⟨rfl, .inr rfl⟩ ordered.2
  · exact there

/-- The body has no second place. -/
theorem body_once (orderly : Orderly (passed ++ (before ++ .body :: after))) :
    .body ∉ passed ∧ .body ∉ before ∧ .body ∉ after := by
  obtain ⟨-, ordered, across⟩ := List.pairwise_append.1 orderly.ordered
  obtain ⟨-, later, within⟩ := List.pairwise_append.1 ordered
  refine ⟨fun twice => ?_, fun twice => ?_, fun twice => ?_⟩
  · exact (across _ twice .body (by simp)).1 ⟨rfl, rfl⟩
  · exact (within _ twice .body (by simp)).1 ⟨rfl, rfl⟩
  · exact (List.rel_of_pairwise_cons later twice).1 ⟨rfl, rfl⟩

/-- Behind the patches come neither the body nor patches, and before them no patches. -/
theorem patches_once (orderly : Orderly (passed ++ .patches :: after)) :
    .patches ∉ passed ∧ .patches ∉ after ∧ .body ∉ after := by
  obtain ⟨-, later, across⟩ := List.pairwise_append.1 orderly.ordered
  refine ⟨fun twice => ?_, fun twice => ?_, fun twice => ?_⟩
  · exact (across _ twice .patches (by simp)).2 ⟨rfl, .inl rfl⟩
  · exact (List.rel_of_pairwise_cons later twice).2 ⟨rfl, .inl rfl⟩
  · exact (List.rel_of_pairwise_cons later twice).2 ⟨rfl, .inr rfl⟩

end Orderly

end Role

/-! ### The layout -/

/-- All late fragments are complete, and the reader has their patches. -/
structure History.Settled (h : List Happening) : Prop where
  handedOut : (completions h).map (·.item) = (patches h).map .ok
  complete : ((completions h).map (·.slot)).Perm (slots h)

theorem History.Settled.append {h new : List Happening} (settled : Settled h)
    (idle : completions new = []) (unread : patches new = []) (silent : slots new = []) :
    Settled (h ++ new) where
  handedOut := by simp [idle, unread, settled.handedOut]
  complete := by simpa [idle, silent] using settled.complete

/-- How far a document has been written out, without an error: the parts passed with what they wrote,
    the parts still to come, and what is left of the body, which began as `first`. -/
structure Layout (first : Rendering) (passed todo : List Role) (outs : List (List Chunk))
    (r : Rendering) (h : List Happening) (pieces : List Piece) (w : EventLoop) : Prop where
  orderly : Role.Orderly (passed ++ todo)
  plays : List.Forall₂ (Role.Plays r) todo pieces
  wrote : List.Forall₂ (Role.Wrote r (History.patches h)) passed outs
  course : Rendering.Course first (History.ofRegistry h) r w
  /-- Patches come one by one while their place is next. -/
  chunks : History.chunks h = outs.flatten ++ if .patches ∈ todo then History.patches h else []
  ahead : .patches ∈ todo.tail → History.patches h = []
  /-- The registry is open until the place of the patches has been passed. -/
  stillOpen : .patches ∈ todo → w.registry.closed = false
  shut : .patches ∉ todo → w.registry.tasks = [] ∧ History.Settled h
  taken : History.accepted h = History.slots h

namespace History

/-- Chunks that are no patches do not concern the registry. -/
theorem ofRegistry_writes {out : List Chunk} (none : out.filter (·.slot?.isSome) = []) :
    ofRegistry (writes out) = [] := by
  induction out with
  | nil => rfl
  | cons chunk rest ih =>
    cases chunk with
    | patch => simp [Chunk.slot?] at none
    | literal | content => exact ih none

@[simp] theorem patches_writes (out : List Chunk) : patches (writes out) = out.filter (·.slot?.isSome) := by
  simp [patches]

end History

namespace Chunk

theorem literals_noPatch (text : String) : (literals text).filter (·.slot?.isSome) = [] := by
  unfold literals
  split <;> simp [slot?]

theorem contents_noPatch (text : String) : (contents text).filter (·.slot?.isSome) = [] := by
  unfold contents
  split <;> simp [slot?]

end Chunk

/-- Asking for the next patch of a document is asking the registry. -/
theorem Sequence.patches_poll {s : Sequence} {answer : Answer} {w w' : EventLoop}
    (asked : Sequence.patches.poll w = (answer, s, w')) : w.drain = (answer, w') ∧ s = .patches := by
  simp only [poll, Prod.mk.injEq] at asked
  obtain ⟨rfl, rfl, rfl⟩ := asked
  exact ⟨rfl, rfl⟩

/-! ### Turns -/

/-- What can happen to a document whose parts play their roles: the body goes on, a part has its turn,
    a patch is handed out, the last one has been, or something happens that does not concern the
    registry. -/
inductive Role.Turn : Rendering → List Role → List Piece → EventLoop → List Happening →
    Rendering → List Role → List Piece → EventLoop → Prop
  | body {r r' : Rendering} {handed : List Registration} {w w' : EventLoop} {toFirst toLast : List Role}
      {before after : List Piece} (step : r.Step w handed r' w')
      (playsFirst : List.Forall₂ (Role.Plays r) toFirst before)
      (playsLast : List.Forall₂ (Role.Plays r) toLast after) :
      Turn r (toFirst ++ .body :: toLast) (before ++ .slot (some (.rendering r)) :: after) w
        (History.handIns none (!w.registry.closed) (handed.map (·.slot)))
        r' (toFirst ++ .body :: toLast) (before ++ .slot (some (.rendering r')) :: after) w'
  | pass {r : Rendering} {role : Role} {todo : List Role} {piece : Piece} {pieces : List Piece}
      {w : EventLoop} {out : List Chunk} (isOther : role ≠ .patches)
      (none : out.filter (·.slot?.isSome) = []) (wrote : ∀ drained, role.Wrote r drained out) :
      Turn r (role :: todo) (piece :: pieces) w (History.writes out) r todo pieces w
  | element {r : Rendering} {todo : List Role} {pieces : List Piece} {w w' : EventLoop}
      {chunk : Chunk} (asked : w.drain = (.item (.ok chunk), w')) :
      Turn r (.patches :: todo) pieces w (History.writes [chunk]) r (.patches :: todo) pieces w'
  | exhausted {r : Rendering} {todo : List Role} {piece : Piece} {pieces : List Piece}
      {w w' : EventLoop} (asked : w.drain = (.finished, w')) :
      Turn r (.patches :: todo) (piece :: pieces) w [] r todo pieces w'.close
  | elsewhere {r : Rendering} {todo : List Role} {pieces pieces' : List Piece} {w w' : EventLoop}
      (same : w'.registry = w.registry) (plays : List.Forall₂ (Role.Plays r) todo pieces') :
      Turn r todo pieces w [] r todo pieces' w'

namespace Role

variable {r : Rendering} {todo : List Role} {new : List Happening} {pieces pieces' : List Piece}
  {w w' : EventLoop}

/-- A sequence stands only at the place of the patches. -/
theorem head_of_sequence {s : Sequence}
    (plays : List.Forall₂ (Plays r) todo (.slot (some (.sequence s)) :: pieces)) :
    ∃ rest, todo = .patches :: rest ∧ s = .patches := by
  obtain ⟨role, rest, here, -, rfl⟩ := List.forall₂_cons_right_iff.1 plays
  obtain ⟨rfl, rfl⟩ := here.of_sequence
  exact ⟨rest, rfl, rfl⟩

/-- Every move over the pieces is a turn of the parts whose roles they play. -/
theorem exists_turn (plays : List.Forall₂ (Plays r) todo pieces)
    (move : TemplateStream.Move pieces w new pieces' w') :
    ∃ todo' r', Turn r todo pieces w new r' todo' pieces' w' := by
  cases move with
  | @render x x' handed _ _ step before after =>
    obtain ⟨toFirst, role, toLast, rfl, playsFirst, here, playsLast⟩ := forall₂_middle plays
    cases role with
    | segment | patches => simp [Plays] at here
    | body =>
      obtain rfl : x = r := by simpa [Plays] using here
      exact ⟨_, _, .body step playsFirst playsLast⟩
    | plain =>
      obtain ⟨source, same, isPlain⟩ := here
      obtain rfl : some (.rendering x) = source := by simpa using same
      -- Outside the body no fragment is handed in, so the registry is as it was.
      obtain ⟨rfl, silent⟩ := Rendering.Silent.step (isPlain _ rfl) step
      have still : w'.registry = w.registry := by
        obtain ⟨-, still⟩ | ⟨content, handed, -⟩ := step.effect
        · exact still
        · simp at handed
      have silent : Plays r .plain (.slot (some (.rendering x'))) := by
        refine ⟨_, rfl, fun given known => ?_⟩
        obtain rfl := Option.some.inj known
        exact silent
      exact ⟨_, r, .elsewhere still (List.rel_append playsFirst (.cons silent playsLast))⟩
  | segment text =>
    obtain ⟨role, rest, here, -, rfl⟩ := List.forall₂_cons_right_iff.1 plays
    cases role with
    | segment =>
      obtain rfl := Piece.segment.inj here
      exact ⟨rest, r, .pass (by simp) (Chunk.literals_noPatch text) fun _ => rfl⟩
    | _ => simp [Plays] at here
  | absent =>
    obtain ⟨role, rest, here, -, rfl⟩ := List.forall₂_cons_right_iff.1 plays
    cases role with
    | plain => exact ⟨rest, r, .pass (by simp) (Chunk.contents_noPatch "") fun _ => ⟨"", rfl⟩⟩
    | _ => simp [Plays] at here
  | text text =>
    obtain ⟨role, rest, here, -, rfl⟩ := List.forall₂_cons_right_iff.1 plays
    cases role with
    | plain => exact ⟨rest, r, .pass (by simp) (Chunk.contents_noPatch text) fun _ => ⟨text, rfl⟩⟩
    | _ => simp [Plays] at here
  | markup markup =>
    obtain ⟨role, rest, here, -, rfl⟩ := List.forall₂_cons_right_iff.1 plays
    have none := Chunk.contents_noPatch markup
    cases role with
    | plain => exact ⟨rest, r, .pass (by simp) none fun _ => ⟨markup, rfl⟩⟩
    | body =>
      have done : r = .done markup := by
        simp only [Plays, Piece.slot.injEq, Option.some.injEq, Source.rendering.injEq] at here
        exact here.symm
      exact ⟨rest, r, .pass (by simp) none fun _ => ⟨markup, done, rfl⟩⟩
    | _ => simp [Plays] at here
  | element asked =>
    obtain ⟨rest, rfl, rfl⟩ := head_of_sequence plays
    obtain ⟨drained, rfl⟩ := Sequence.patches_poll asked
    exact ⟨_, r, .element drained⟩
  | waiting asked =>
    obtain ⟨rest, rfl, rfl⟩ := head_of_sequence plays
    obtain ⟨drained, rfl⟩ := Sequence.patches_poll asked
    exact ⟨_, r, .elsewhere (EventLoop.registry_of_drain_waiting drained) plays⟩
  | exhausted asked =>
    obtain ⟨rest, rfl, rfl⟩ := head_of_sequence plays
    obtain ⟨drained, rfl⟩ := Sequence.patches_poll asked
    exact ⟨rest, r, .exhausted drained⟩
  | elsewhere same => exact ⟨todo, r, .elsewhere same plays⟩

end Role

/-! ### The layout in all turns -/

namespace Layout

variable {first r : Rendering} {passed todo : List Role} {outs : List (List Chunk)}
  {h new : List Happening} {pieces pieces' : List Piece} {w w' : EventLoop}

/-- A part that is no place for patches has had its turn. -/
theorem pass {role : Role} {piece : Piece} {out : List Chunk} (isOther : role ≠ .patches)
    (none : out.filter (·.slot?.isSome) = [])
    (layout : Layout first passed (role :: todo) outs r h (piece :: pieces) w)
    (wrote : role.Wrote r (History.patches h) out) :
    Layout first (passed ++ [role]) todo (outs ++ [out]) r (h ++ History.writes out) pieces w := by
  have still : Role.patches ∈ role :: todo ↔ Role.patches ∈ todo := by
    simp [isOther.symm]
  -- The part has written no patch, and so the registry has nothing to do with it.
  have same : History.patches (h ++ History.writes out) = History.patches h := by
    rw [History.patches_append, History.patches_writes, none, List.append_nil]
  constructor
  case orderly => simpa using layout.orderly
  case plays => exact (List.forall₂_cons.1 layout.plays).2
  case wrote =>
    rw [same]
    exact List.rel_append layout.wrote (.cons wrote .nil)
  case course =>
    rw [History.ofRegistry_append, History.ofRegistry_writes none, List.append_nil]
    exact layout.course
  case chunks =>
    rw [same, History.chunks_append, layout.chunks, History.chunks_writes]
    by_cases ahead : Role.patches ∈ todo
    · simp [ahead, layout.ahead ahead]
    · simp [ahead, isOther.symm]
  case ahead =>
    intro ahead
    rw [same]
    exact layout.ahead (List.mem_of_mem_tail ahead)
  case stillOpen => exact fun ahead => layout.stillOpen (still.2 ahead)
  case shut =>
    intro behind
    obtain ⟨idle, settled⟩ := layout.shut fun ahead => behind (still.1 ahead)
    exact ⟨idle, settled.append (by simp) (by rw [History.patches_writes, none]) (by simp)⟩
  case taken => simpa using layout.taken

/-- The body goes on. -/
theorem body {r' : Rendering} {handed : List Registration} {toFirst toLast : List Role}
    {before after : List Piece} (step : r.Step w handed r' w')
    (layout : Layout first passed (toFirst ++ .body :: toLast) outs r h
      (before ++ .slot (some (.rendering r)) :: after) w)
    (playsFirst : List.Forall₂ (Role.Plays r) toFirst before)
    (playsLast : List.Forall₂ (Role.Plays r) toLast after) :
    Layout first passed (toFirst ++ .body :: toLast) outs r'
      (h ++ History.handIns none (!w.registry.closed) (handed.map (·.slot)))
      (before ++ .slot (some (.rendering r')) :: after) w' := by
  -- The body stands in one place, so none of the other pieces depends on what is left of it.
  obtain ⟨notPassed, notFirst, notLast⟩ := layout.orderly.body_once
  have ahead := layout.orderly.patches_of_body (by simp)
  have stillOpen := layout.stillOpen ahead
  have unread : History.patches (History.handIns none (!w.registry.closed) (handed.map (·.slot))) =
      [] := by
    simp [History.patches, History.chunks]
  constructor
  case orderly => exact layout.orderly
  case plays =>
    refine List.rel_append ?_ (.cons rfl ?_)
    · exact forall₂_congr_of_notMem playsFirst notFirst fun _ _ other => Role.Plays.other other
    · exact forall₂_congr_of_notMem playsLast notLast fun _ _ other => Role.Plays.other other
  case wrote =>
    rw [History.patches_append, unread, List.append_nil]
    exact forall₂_congr_of_notMem layout.wrote notPassed fun _ _ other => Role.Wrote.other other
  case course =>
    rw [History.ofRegistry_append, History.ofRegistry_handIns]
    exact layout.course.step step
  case chunks =>
    rw [History.patches_append, unread, List.append_nil, ← layout.chunks]
    simp [History.chunks]
  case ahead =>
    rw [History.patches_append, unread, List.append_nil]
    exact layout.ahead
  case stillOpen =>
    intro _
    rw [step.closed]
    exact stillOpen
  case shut => exact fun behind => absurd ahead behind
  case taken =>
    rw [stillOpen]
    simpa using layout.taken

/-- Something happens that does not concern the registry. -/
theorem elsewhere (same : w'.registry = w.registry)
    (layout : Layout first passed todo outs r h pieces w)
    (plays : List.Forall₂ (Role.Plays r) todo pieces') :
    Layout first passed todo outs r h pieces' w' where
  __ := layout
  plays := plays
  course := layout.course.elsewhere same
  stillOpen ahead := same ▸ layout.stillOpen ahead
  shut behind := same ▸ layout.shut behind

/-- A patch is handed out. -/
theorem element {chunk : Chunk} (asked : w.drain = (.item (.ok chunk), w'))
    (layout : Layout first passed (.patches :: todo) outs r h pieces w) :
    Layout first passed (.patches :: todo) outs r (h ++ History.writes [chunk]) pieces w' := by
  -- There is only one place for the patches, which is this one.
  obtain ⟨notPassed, notAhead, -⟩ := layout.orderly.patches_once
  have isPatch := layout.course.reached.slot_of_drain asked
  have drained : History.patches (h ++ History.writes [chunk]) = History.patches h ++ [chunk] := by
    rw [History.patches_append, History.patches_writes]
    simp [isPatch]
  constructor
  case orderly => exact layout.orderly
  case plays => exact layout.plays
  case wrote =>
    exact forall₂_congr_of_notMem layout.wrote notPassed fun _ _ other => Role.Wrote.drain other
  case course =>
    have course := layout.course.ask asked
    rw [History.ofRegistry_append]
    simpa [History.ofRegistry, History.writes, History.reads, Happening.ofRegistry, isPatch,
      Answer.items] using course
  case chunks =>
    rw [drained, History.chunks_append, layout.chunks]
    simp
  case ahead => exact fun ahead => absurd ahead notAhead
  case stillOpen =>
    intro _
    rw [(EventLoop.registry_of_drain asked).1]
    exact layout.stillOpen List.mem_cons_self
  case shut => exact fun behind => absurd List.mem_cons_self behind
  case taken => simpa using layout.taken

/-- All patches have been handed out, and the registry is given up. -/
theorem exhausted {piece : Piece} (asked : w.drain = (.finished, w'))
    (layout : Layout first passed (.patches :: todo) outs r h (piece :: pieces) w) :
    Layout first (passed ++ [.patches]) todo (outs ++ [History.patches h]) r h pieces w'.close := by
  obtain ⟨notPassed, notAhead, -⟩ := layout.orderly.patches_once
  have stillOpen := layout.stillOpen List.mem_cons_self
  have settled := layout.course.reached.settled_of_drain stillOpen asked
  constructor
  case orderly => simpa using layout.orderly
  case plays => exact (List.forall₂_cons.1 layout.plays).2
  case wrote => exact List.rel_append layout.wrote (.cons rfl .nil)
  case course =>
    have course := (layout.course.ask asked).close
    simpa [Answer.items] using course
  case chunks => simp [layout.chunks, notAhead]
  case ahead => exact fun ahead => absurd (List.mem_of_mem_tail ahead) notAhead
  case stillOpen => exact fun ahead => absurd ahead notAhead
  case shut =>
    intro _
    refine ⟨rfl, ?_, ?_⟩
    · rw [← History.completions_ofRegistry, settled.1, History.yields_ofRegistry]
    · rw [← layout.taken]
      simpa using settled.2
  case taken => exact layout.taken

/-- No move over the pieces breaks the layout. -/
theorem move (layout : Layout first passed todo outs r h pieces w)
    (move : TemplateStream.Move pieces w new pieces' w') :
    ∃ passed' todo' outs' r', passed' ++ todo' = passed ++ todo ∧
      Layout first passed' todo' outs' r' (h ++ new) pieces' w' := by
  obtain ⟨todo', r', turn⟩ := Role.exists_turn layout.plays move
  cases turn with
  | body step playsFirst playsLast => exact ⟨_, _, _, _, rfl, layout.body step playsFirst playsLast⟩
  | pass isOther none wrote => exact ⟨_, _, _, _, by simp, layout.pass isOther none (wrote _)⟩
  | element asked => exact ⟨_, _, _, _, rfl, layout.element asked⟩
  | exhausted asked =>
    have onward := layout.exhausted asked
    exact ⟨passed ++ [.patches], todo', _, r, by simp, h.append_nil.symm ▸ onward⟩
  | elsewhere same plays => exact ⟨_, _, _, _, rfl, by simpa using layout.elsewhere same plays⟩

/-- Nothing in the background breaks the layout. -/
theorem background (layout : Layout first passed todo outs r h pieces w)
    (move : w.Background new w') : Layout first passed todo outs r (h ++ new) pieces w' := by
  have unread : History.patches new = [] := by simp [History.patches, move.chunks]
  have same : History.patches (h ++ new) = History.patches h := by
    rw [History.patches_append, unread, List.append_nil]
  constructor
  case orderly => exact layout.orderly
  case plays => exact layout.plays
  case wrote => exact same ▸ layout.wrote
  case course =>
    rw [History.ofRegistry_append, move.ofRegistry]
    exact layout.course.background move
  case chunks => rw [same, History.chunks_append, move.chunks, List.append_nil, layout.chunks]
  case ahead => exact same ▸ layout.ahead
  case stillOpen =>
    intro ahead
    rw [move.closed]
    exact layout.stillOpen ahead
  case shut =>
    intro behind
    obtain ⟨idle, settled⟩ := layout.shut behind
    -- Without tasks the background is silent.
    obtain ⟨rfl, still⟩ := move.idle idle
    exact ⟨still, by simpa using settled⟩
  case taken =>
    by_cases ahead : Role.patches ∈ todo
    · simp [layout.taken, move.taken (layout.stillOpen ahead)]
    · obtain ⟨rfl, -⟩ := move.idle (layout.shut ahead).1
      simpa using layout.taken

end Layout

end ProgressiveHtml
