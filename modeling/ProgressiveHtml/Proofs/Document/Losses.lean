import ProgressiveHtml.Proofs.Document.Cancellation
import ProgressiveHtml.Proofs.Document.Relocation
import ProgressiveHtml.Proofs.Registry.Draining

namespace ProgressiveHtml

/-!
# Documents — what a pattern loses

A pattern of its own may name the body and the patches anywhere, or leave the patches out.  The
registry is given up when the place of the patches has been passed, or at the start when there is
none.  What the body hands in after that is discarded: its placeholder is written, its patch is not.

* `Outline`, `Outline.move`, `Outline.background` — how far a document with any pattern has got;
* `Document.outline_of_readOut` — the end of a document with any pattern;
* `Document.Lossless` — every placeholder has its patch;
* `Document.Accounted`, `Document.accounted` — which patches are written, and which are not;
* `Document.loses_content` — a document that ends with a placeholder and no patch.
-/

/-! ### Parts in any order -/

/-- Whether two parts of a template are not both the body, and not both the patches. -/
def Role.Apart (a b : Role) : Prop :=
  ¬(a = .body ∧ b = .body) ∧ ¬(a = .patches ∧ b = .patches)

namespace Template

open Document

/-- A template has a place for the patches exactly if they are named. -/
theorem patches_mem_roles (t : Template) : .patches ∈ t.roles ↔ patchesSlot ∈ t.slots := by
  constructor
  · intro placed
    have placed := (List.mem_cons.1 placed).resolve_left (by simp)
    have named {sections : List (String × String)} {body patches : Bool}
        (placed : .patches ∈ sectionRoles sections body patches) :
        patchesSlot ∈ sections.map (·.1) := by
      induction sections generalizing body patches with
      | nil => cases placed
      | cons entry rest ih =>
        obtain ⟨name, text⟩ := entry
        rw [sectionRoles, List.mem_cons, List.mem_cons] at placed
        obtain here | isSegment | later := placed
        · simp [(slotRole_eq_patches here.symm).2]
        · cases isSegment
        · exact List.mem_cons_of_mem _ (ih later)
    exact named placed
  · exact fun named => List.mem_cons_of_mem _ (slotRole_mem_sectionRoles named true true)

/-- Every template has at most one place for the body and one for the patches. -/
theorem pairwise_apart (sections : List (String × String)) (body patches : Bool) :
    (sectionRoles sections body patches).Pairwise Role.Apart := by
  induction sections generalizing body patches with
  | nil => exact .nil
  | cons entry rest ih =>
    obtain ⟨name, text⟩ := entry
    refine .cons ?_ (.cons (fun role _ => ?_) (ih _ _))
    · intro role member
      obtain rfl | member := List.mem_cons.1 member
      · simp [Role.Apart]
      obtain ⟨ofBody, ofPatches⟩ := mem_sectionRoles member
      constructor
      · rintro ⟨isBody, again⟩
        simpa [(slotRole_eq_body isBody).2] using ofBody again
      · rintro ⟨isPatches, again⟩
        simpa [(slotRole_eq_patches isPatches).2] using ofPatches again
    · simp [Role.Apart]

end Template

namespace Role

variable {before after : List Role}

/-- The body has no second place. -/
theorem body_once_of_apart (apart : (before ++ .body :: after).Pairwise Apart) :
    .body ∉ before ∧ .body ∉ after := by
  obtain ⟨-, later, across⟩ := List.pairwise_append.1 apart
  refine ⟨fun twice => ?_, fun twice => ?_⟩
  · exact (across _ twice .body List.mem_cons_self).1 ⟨rfl, rfl⟩
  · exact (List.rel_of_pairwise_cons later twice).1 ⟨rfl, rfl⟩

/-- The patches have no second place. -/
theorem patches_once_of_apart (apart : (.patches :: after).Pairwise Apart) : .patches ∉ after :=
  fun twice => (List.rel_of_pairwise_cons apart twice).2 ⟨rfl, rfl⟩

end Role

/-! ### How far a document has got -/

/-- All late fragments that were taken in are complete, and the reader has their patches. -/
structure History.Drained (h : List Happening) : Prop where
  handedOut : (completions h).map (·.item) = (patches h).map .ok
  complete : ((completions h).map (·.slot)).Perm (accepted h)

theorem History.Drained.append {h new : List Happening} (drained : Drained h)
    (idle : completions new = []) (unread : patches new = []) (untaken : accepted new = []) :
    Drained (h ++ new) where
  handedOut := by simp [idle, unread, drained.handedOut]
  complete := by simpa [idle, untaken] using drained.complete

/-- How far a document with any pattern has been written out, without an error: the parts still to
    come, what is left of the body, which began as `first`, and how the registry stands.  The
    pattern may have no place for the patches (`placed`). -/
structure Outline (first : Rendering) (placed : Prop) (todo : List Role) (r : Rendering)
    (h : List Happening) (pieces : List Piece) (w : EventLoop) : Prop where
  apart : todo.Pairwise Role.Apart
  plays : List.Forall₂ (Role.Plays r) todo pieces
  course : Rendering.Course first (History.ofRegistry h) r w
  /-- The body has been written once its place has been passed. -/
  written : .body ∉ todo →
    ∃ text, r = .done text ∧ ∀ chunk ∈ Chunk.contents text, chunk ∈ History.chunks h
  /-- The registry is open until the place of the patches has been passed. -/
  stillOpen : .patches ∈ todo → w.registry.closed = false
  drained : .patches ∉ todo → w.registry.Shut ∧ History.Drained h
  untaken : ¬placed → .patches ∉ todo ∧ History.accepted h = []

namespace Outline

variable {first r : Rendering} {placed : Prop} {todo : List Role} {h new : List Happening}
  {pieces pieces' : List Piece} {w w' : EventLoop}

/-- A part that is no place for patches has had its turn. -/
theorem pass {role : Role} {piece : Piece} {out : List Chunk} (isOther : role ≠ .patches)
    (none : out.filter (·.slot?.isSome) = [])
    (outline : Outline first placed (role :: todo) r h (piece :: pieces) w)
    (wrote : role.Wrote r [] out) :
    Outline first placed todo r (h ++ History.writes out) pieces w := by
  have still : Role.patches ∈ role :: todo ↔ Role.patches ∈ todo := by
    simp [isOther.symm]
  constructor
  case apart => exact outline.apart.of_cons
  case plays => exact (List.forall₂_cons.1 outline.plays).2
  case course =>
    rw [History.ofRegistry_append, History.ofRegistry_writes none, List.append_nil]
    exact outline.course
  case written =>
    intro passed
    -- This part is the body, or the body had been written before.
    by_cases isBody : role = .body
    · subst isBody
      obtain ⟨text, isDone, rfl⟩ := wrote
      exact ⟨text, isDone, by simp +contextual⟩
    · obtain ⟨text, isDone, before⟩ := outline.written (by simp [Ne.symm isBody, passed])
      refine ⟨text, isDone, fun chunk member => ?_⟩
      rw [History.chunks_append]
      exact List.mem_append_left _ (before chunk member)
  case stillOpen => exact fun ahead => outline.stillOpen (still.2 ahead)
  case drained =>
    intro behind
    obtain ⟨shut, drained⟩ := outline.drained fun ahead => behind (still.1 ahead)
    exact ⟨shut, drained.append (by simp) (by rw [History.patches_writes, none]) (by simp)⟩
  case untaken =>
    intro nowhere
    obtain ⟨behind, nothing⟩ := outline.untaken nowhere
    exact ⟨fun ahead => behind (still.2 ahead), by simpa using nothing⟩

/-- The body goes on.  What it hands in is taken in as long as the registry is open. -/
theorem body {r' : Rendering} {handed : List Registration} {toFirst toLast : List Role}
    {before after : List Piece} (step : r.Step w handed r' w')
    (outline : Outline first placed (toFirst ++ .body :: toLast) r h
      (before ++ .slot (some (.rendering r)) :: after) w)
    (playsFirst : List.Forall₂ (Role.Plays r) toFirst before)
    (playsLast : List.Forall₂ (Role.Plays r) toLast after) :
    Outline first placed (toFirst ++ .body :: toLast) r'
      (h ++ History.handIns none (!w.registry.closed) (handed.map (·.slot)))
      (before ++ .slot (some (.rendering r')) :: after) w' := by
  obtain ⟨notFirst, notLast⟩ := Role.body_once_of_apart outline.apart
  -- What is handed in after the registry has been shut is not taken in.
  have untaken (shut : w.registry.Shut) :
      History.accepted (History.handIns none (!w.registry.closed) (handed.map (·.slot))) = [] := by
    simp [shut.closed]
  constructor
  case apart => exact outline.apart
  case plays =>
    refine List.rel_append ?_ (.cons rfl ?_)
    · exact forall₂_congr_of_notMem playsFirst notFirst fun _ _ other => Role.Plays.other other
    · exact forall₂_congr_of_notMem playsLast notLast fun _ _ other => Role.Plays.other other
  case course =>
    rw [History.ofRegistry_append, History.ofRegistry_handIns]
    exact outline.course.step step
  case written => exact fun passed => absurd (by simp) passed
  case stillOpen =>
    intro ahead
    rw [step.closed]
    exact outline.stillOpen ahead
  case drained =>
    intro behind
    obtain ⟨shut, drained⟩ := outline.drained behind
    refine ⟨(Rendering.Steps.single step).shut shut, drained.append (by simp) ?_ (untaken shut)⟩
    simp [History.patches, History.chunks]
  case untaken =>
    intro nowhere
    obtain ⟨behind, nothing⟩ := outline.untaken nowhere
    refine ⟨behind, ?_⟩
    rw [History.accepted_append, nothing, untaken (outline.drained behind).1, List.append_nil]

/-- Something happens that does not concern the registry. -/
theorem elsewhere (same : w'.registry = w.registry)
    (outline : Outline first placed todo r h pieces w)
    (plays : List.Forall₂ (Role.Plays r) todo pieces') :
    Outline first placed todo r h pieces' w' where
  __ := outline
  plays := plays
  course := outline.course.elsewhere same
  stillOpen ahead := same ▸ outline.stillOpen ahead
  drained behind := same ▸ outline.drained behind

/-- A patch is handed out. -/
theorem element {chunk : Chunk} (asked : w.drain = (.item (.ok chunk), w'))
    (outline : Outline first placed (.patches :: todo) r h pieces w) :
    Outline first placed (.patches :: todo) r (h ++ History.writes [chunk]) pieces w' := by
  have isPatch := outline.course.reached.slot_of_drain asked
  constructor
  case apart => exact outline.apart
  case plays => exact outline.plays
  case course =>
    have course := outline.course.ask asked
    rw [History.ofRegistry_append]
    simpa [History.ofRegistry, History.writes, History.reads, Happening.ofRegistry, isPatch,
      Answer.items] using course
  case written =>
    intro passed
    obtain ⟨text, isDone, before⟩ := outline.written passed
    refine ⟨text, isDone, fun chunk member => ?_⟩
    rw [History.chunks_append]
    exact List.mem_append_left _ (before chunk member)
  case stillOpen =>
    intro ahead
    rw [(EventLoop.registry_of_drain asked).1]
    exact outline.stillOpen ahead
  case drained => exact fun behind => absurd List.mem_cons_self behind
  case untaken => exact fun nowhere => absurd List.mem_cons_self (outline.untaken nowhere).1

/-- All patches have been handed out, and the registry is given up. -/
theorem exhausted {piece : Piece} (asked : w.drain = (.finished, w'))
    (outline : Outline first placed (.patches :: todo) r h (piece :: pieces) w) :
    Outline first placed todo r h pieces w'.close := by
  have settled := outline.course.reached.settled_of_drain (outline.stillOpen List.mem_cons_self)
    asked
  have notAhead := Role.patches_once_of_apart outline.apart
  constructor
  case apart => exact outline.apart.of_cons
  case plays => exact (List.forall₂_cons.1 outline.plays).2
  case course =>
    have course := (outline.course.ask asked).close
    simpa [Answer.items] using course
  case written => exact fun passed => outline.written (by simp [passed])
  case stillOpen => exact fun ahead => absurd ahead notAhead
  case drained =>
    intro _
    refine ⟨w'.registry.close_shut, ?_, by simpa using settled.2⟩
    rw [← History.completions_ofRegistry, settled.1, History.yields_ofRegistry]
  case untaken => exact fun nowhere => absurd List.mem_cons_self (outline.untaken nowhere).1

/-- Every move over the pieces keeps the outline. -/
theorem move (outline : Outline first placed todo r h pieces w)
    (move : TemplateStream.Move pieces w new pieces' w') :
    ∃ todo' r', Outline first placed todo' r' (h ++ new) pieces' w' := by
  obtain ⟨todo', r', turn⟩ := Role.exists_turn outline.plays move
  refine ⟨todo', r', ?_⟩
  cases turn with
  | body step playsFirst playsLast => exact outline.body step playsFirst playsLast
  | pass isOther none wrote => exact outline.pass isOther none (wrote [])
  | element asked => exact outline.element asked
  | exhausted asked => exact h.append_nil.symm ▸ outline.exhausted asked
  | elsewhere same plays => simpa using outline.elsewhere same plays

/-- The background keeps the outline. -/
theorem background (outline : Outline first placed todo r h pieces w)
    (move : w.Background new w') : Outline first placed todo r (h ++ new) pieces w' := by
  have unread : History.patches new = [] := by simp [History.patches, move.chunks]
  constructor
  case apart => exact outline.apart
  case plays => exact outline.plays
  case course =>
    rw [History.ofRegistry_append, move.ofRegistry]
    exact outline.course.background move
  case written =>
    rw [History.chunks_append, move.chunks, List.append_nil]
    exact outline.written
  case stillOpen =>
    intro ahead
    rw [move.closed]
    exact outline.stillOpen ahead
  case drained =>
    intro behind
    obtain ⟨shut, drained⟩ := outline.drained behind
    -- Once the registry is shut there are no tasks, and the background is silent.
    obtain ⟨rfl, -⟩ := move.idle shut.noTasks
    exact ⟨move.shut shut, by simpa using drained⟩
  case untaken =>
    intro nowhere
    obtain ⟨behind, nothing⟩ := outline.untaken nowhere
    obtain ⟨rfl, -⟩ := move.idle (outline.drained behind).1.noTasks
    exact ⟨behind, by simpa using nothing⟩

end Outline

/-! ### What is taken in -/

namespace EventLoop.Reached

variable {h : List Happening} {w : EventLoop}

/-- What is taken in was handed in before all that is not: a registry that has been given up is not
    opened again. -/
theorem accepted_prefix (reached : Reached h w) : History.accepted h <+: History.slots h := by
  -- As long as the registry is open, everything is taken in. Once it is closed nothing more is, by
  -- induction on how the state was reached.
  cases isClosed : w.registry.closed with
  | false => exact (reached.accepted_eq isClosed).symm ▸ List.prefix_refl _
  | true =>
    induction reached with
    | start => exact List.prefix_refl _
    | @handIn h w before content ih =>
      rw [register_registry, Registry.register_closed] at isClosed
      have discarded : History.accepted [.handedIn (w.register content).1 none (!w.registry.closed)] =
          [] := by
        rw [isClosed]
        rfl
      rw [History.accepted_append, History.slots_append, discarded, List.append_nil]
      exact (ih isClosed).trans (List.prefix_append _ _)
    | background before move ih =>
      rw [move.closed] at isClosed
      obtain ⟨rfl, -⟩ := move.idle (before.accounts.idle isClosed).1
      simpa using ih isClosed
    | ask _ asked ih =>
      rw [(registry_of_drain asked).1] at isClosed
      simpa using ih isClosed
    | @close h w before ih =>
      cases wasClosed : w.registry.closed with
      | false => exact (before.accepted_eq wasClosed).symm ▸ List.prefix_refl _
      | true => exact ih wasClosed
    | elsewhere _ same ih => exact ih (same ▸ isClosed)

/-- A late fragment that hands in others was taken in itself. -/
theorem accepted_of_host (reached : Reached h w) {slot host : Nat}
    (handed : (slot, some host) ∈ History.hosts h) : host ∈ History.accepted h := by
  induction reached with
  | start => cases handed
  | @handIn h w _ content ih =>
    rw [History.hosts_append] at handed
    obtain before | now := List.mem_append.1 handed
    · rw [History.accepted_append]
      exact List.mem_append_left _ (ih before)
    · simp [History.hosts, Happening.host?] at now
  | @background h new w w' reached move ih =>
    rw [History.hosts_append] at handed
    rw [History.accepted_append]
    obtain before | now := List.mem_append.1 handed
    · exact List.mem_append_left _ (ih before)
    · cases move with
      | pass | finish => cases now
      | goOn found _ =>
        rw [History.hosts_handIns] at now
        obtain ⟨_, -, same⟩ := List.mem_map.1 now
        obtain rfl := Option.some.inj (Prod.mk.inj same).2
        -- What goes on is a task, and every task was taken in.
        have here := Registry.mem_of_task? found
        have isPlaced := (reached.accounts.placed (reached.accounts.open_of_task here)).symm
        exact List.mem_append_left _
          (isPlaced.subset (List.mem_append_right _ (List.mem_map_of_mem here)))
  | ask _ _ ih =>
    rw [History.hosts_append, History.hosts_reads, List.append_nil] at handed
    simpa using ih handed
  | close _ ih => exact ih handed
  | elsewhere _ _ ih => exact ih handed

end EventLoop.Reached

namespace Document

variable {settings : Settings} {body : Node} {w₀ w : EventLoop} {h : List Happening} {d : Document}

/-- What a document with any pattern begins with: all slots have got their roles, and the registry is
    as it was, or it has been given up. -/
theorem start_parts (settings : Settings) (body : Node) (w : EventLoop) :
    List.Forall₂ (Role.Plays (bodyRendering settings body)) settings.compiled.roles
        (start settings body w).1.stream.pieces ∧
      (start settings body w).1.stream.finished = false ∧
      (patchesSlot ∈ settings.compiled.slots →
        (start settings body w).2.registry = w.registry) ∧
      ∃ before : EventLoop, before.registry = w.registry ∧
        ((start settings body w).2 = before ∨ (start settings body w).2 = before.close) := by
  let announced : EventLoop := (w.onBehalfOf (journalName settings.requestId)
    fun w => ((), w.note (.notice (.renderingDocument settings.timeout)))).2
  obtain ⟨plays, ⟨body', patches', left, unplaced⟩, same⟩ :=
    (sources_holds settings body).assign settings.compiled.sections announced
  refine ⟨.cons rfl plays, rfl, fun placed => ?_, _, same, ?_⟩
  · have taken : patches' = false := by
      by_contra remains
      exact (unplaced (by simpa using remains)).2 placed
    rw [taken] at left
    exact (left.release _).trans same
  · exact EventLoop.foldl_release (fun w entry => entry.2.release_eq w) _ _

/-- A document with a place for the body begins with its outline: the registry is open if there is a
    place for the patches, and has been given up otherwise. -/
theorem start_outline (named : bodySlot ∈ settings.compiled.slots) (body : Node)
    (fresh : w.registry = {}) :
    Outline (bodyRendering settings body) (patchesSlot ∈ settings.compiled.slots)
      settings.compiled.roles (bodyRendering settings body) []
      (start settings body w).1.stream.pieces (start settings body w).2 := by
  -- Beginning the document changes nothing in the registry, but that it is given up if the patches
  -- have no place.
  obtain ⟨plays, -, untouched, before, same, begun⟩ := start_parts settings body w
  have holds : TemplateStream.HoldsRegistry (start settings body w).1.stream.pieces
      (start settings body w).2 :=
    TemplateStream.start_holds (sources_holds settings body).patches _ _
  have placed := settings.compiled.patches_mem_roles
  constructor
  case apart =>
    refine .cons (fun role _ => ?_) (Template.pairwise_apart _ true true)
    simp [Role.Apart]
  case plays => exact plays
  case course =>
    have course : Rendering.Course (bodyRendering settings body) [] (bodyRendering settings body)
        before := .start (same.trans fresh)
    obtain same | same := begun <;> rw [same]
    · exact course
    · exact course.close
  case written =>
    have isPlaced := Template.slotRole_mem_sectionRoles named true true
    exact fun absent => absurd (List.mem_cons_of_mem _ isPlaced) absent
  case stillOpen =>
    intro ahead
    rw [untouched (placed.1 ahead), fresh]
  case drained =>
    intro nowhere
    refine ⟨holds.resolve_left fun member => ?_, rfl, .nil⟩
    obtain ⟨role, isRole, plays⟩ := forall₂_mem_right plays member
    obtain ⟨rfl, -⟩ := plays.of_sequence
    exact nowhere isRole
  case untaken => exact fun nowhere => ⟨fun ahead => nowhere (placed.1 ahead), rfl⟩

/-- The outline of a document in some stage of a run. -/
def Outlined (settings : Settings) (body : Node) (h : List Happening) (pieces : List Piece)
    (w : EventLoop) : Prop :=
  ∃ todo r, Outline (bodyRendering settings body) (patchesSlot ∈ settings.compiled.slots) todo r h
    pieces w

theorem Outlined.moves {new : List Happening} {pieces pieces' : List Piece} {w' : EventLoop}
    (outlined : Outlined settings body h pieces w)
    (moves : TemplateStream.Moves pieces w new pieces' w') :
    Outlined settings body (h ++ new) pieces' w' := by
  refine moves.keeps outlined ?_
  exact fun ⟨_, _, outline⟩ move => outline.move move

/-- In every run of a document without an error its outline is kept. -/
theorem outline_of_run (named : bodySlot ∈ settings.compiled.slots) (fresh : w₀.registry = {})
    (run : toChunkStream.Run (start settings body w₀).1 (start settings body w₀).2 h d w)
    (clean : ∀ error, .error error ∉ History.yields h) :
    Outlined settings body h d.stream.pieces w ∧
      (d.stream.finished → d.stream.pieces = []) := by
  induction run with
  | start =>
    refine ⟨⟨_, _, start_outline named body fresh⟩, fun finished => ?_⟩
    rw [(start_parts settings body w₀).2.1] at finished
    cases finished
  | background _ move ih =>
    rw [History.yields_append, move.yields, List.append_nil] at clean
    obtain ⟨⟨todo, r, outline⟩, sound⟩ := ih clean
    exact ⟨⟨todo, r, outline.background move⟩, sound⟩
  | @poll h d next w w' answer _ asked onward ih =>
    simp only [History.yields_append, List.mem_append, not_or, EventLoop.handedInSince,
      History.yields_handIns, History.yields_reads] at clean
    obtain ⟨outlined, sound⟩ := ih fun error => (clean error).1
    have went := d.poll_moves w sound
    rw [show d.poll w = (answer, w') from asked] at went
    obtain ⟨moves, sound⟩ := went.moves onward fun error => (clean error).2.2
    exact ⟨outlined.moves moves, sound⟩

/-- In every run of a document to its end, without an error, nothing is left to come. -/
theorem outline_of_readOut (named : bodySlot ∈ settings.compiled.slots) (fresh : w₀.registry = {})
    (readOut : toChunkStream.ReadOut (start settings body w₀).1 (start settings body w₀).2 h)
    (clean : ∀ error, .error error ∉ History.yields h) :
    ∃ r w, Outline (bodyRendering settings body) (patchesSlot ∈ settings.compiled.slots) [] r h
      [] w := by
  obtain ⟨run, asked⟩ := readOut
  rename_i h d last w w'
  have earlier : ∀ error, .error error ∉ History.yields h := by
    simpa [EventLoop.handedInSince] using clean
  obtain ⟨outlined, sound⟩ := outline_of_run named fresh run earlier
  have went := d.poll_moves w sound
  rw [show d.poll w = (.ready none last, w') from asked] at went
  obtain ⟨todo, r, outline⟩ := outlined.moves went.2
  obtain rfl : todo = [] := by simpa using outline.plays
  exact ⟨r, w', outline⟩

/-! ### The end of a document -/

/-- Whether every placeholder that is written has its patch written. -/
def Lossless (h : List Happening) : Prop :=
  ∀ chunk ∈ History.chunks h, ∀ n fallback,
    Markup.Contains chunk.text (Markup.placeholder (Markup.slotName n) fallback) →
      ∃ markup, .patch (Markup.slotName n) markup ∈ History.chunks h

/-- What has become of the late fragments of a document with template `t`. -/
structure Accounted (t : Template) (h : List Happening) : Prop where
  /-- Whatever was handed in has its placeholder written. -/
  placed : ∀ n ∈ History.slots h, ∃ chunk ∈ History.chunks h, ∃ fallback,
    Markup.Contains chunk.text (Markup.placeholder (Markup.slotName n) fallback)
  /-- Exactly the fragments that were taken in have their patches written, each once. -/
  patched : ∀ n, (∃ markup, .patch (Markup.slotName n) markup ∈ History.chunks h) ↔
    n ∈ History.accepted h
  once : ((History.chunks h).filterMap Chunk.slot?).Perm
    ((History.accepted h).map Markup.slotName)
  /-- From some moment on all that was handed in was discarded. -/
  first : History.accepted h <+: History.slots h
  /-- Nothing was discarded if the patches have their place behind the body. -/
  all : t.BodyFirst → History.accepted h = History.slots h
  /-- Everything was discarded if the patches have no place. -/
  nothing : patchesSlot ∉ t.slots → History.accepted h = []

/-- A document with any pattern that has a place for the body, read to its end without an error, has
    written the placeholders of all late fragments, and the patches of those that were taken in. -/
theorem accounted (named : bodySlot ∈ settings.compiled.slots) (regular : body.Regular)
    (fresh : w₀.registry = {})
    (readOut : toChunkStream.ReadOut (start settings body w₀).1 (start settings body w₀).2 h)
    (clean : ∀ error, .error error ∉ History.yields h) : Accounted settings.compiled h := by
  obtain ⟨r, w, outline⟩ := outline_of_readOut named fresh readOut clean
  obtain ⟨text, rfl, written⟩ := outline.written List.not_mem_nil
  obtain ⟨shut, handedOut, complete⟩ := outline.drained List.not_mem_nil
  have reached := outline.course.reached
  -- The patches are made of the ends of the fragments that were taken in.
  have slots := reached.slots_of_handedOut (by simpa using handedOut)
  rw [History.completions_ofRegistry, History.filterMap_slot_patches] at slots
  have once : ((History.chunks h).filterMap Chunk.slot?).Perm
      ((History.accepted h).map Markup.slotName) := by
    rw [slots]
    have complete := complete.map Markup.slotName
    rwa [List.map_map] at complete
  constructor
  case placed =>
    intro n given
    have promised : (bodyRendering settings body).Ensures
        (body.Shows (Environment.empty.deferringAfter settings.timeout)) :=
      fun first => body.ensures_rendering regular _ first
    obtain ⟨entries, ledger⟩ := outline.course.ledger promised
    have numbered := reached.accounts.slots
    rw [History.slots_ofRegistry] at numbered
    rw [numbered] at given
    obtain ⟨entry, member, rfl⟩ := ledger.agrees.exists_entry (List.mem_range.1 given)
    cases isHost : entry.host with
    | none =>
      obtain ⟨fallback, here⟩ := ledger.placed_in_body member isHost
      have isContent : Chunk.contents text = [.content text] := by
        rw [Chunk.contents, here.isEmpty_eq_false, if_neg Bool.false_ne_true]
      exact ⟨.content text, written _ (isContent ▸ List.mem_cons_self), fallback, here⟩
    | some host =>
      -- The host was taken in, so it is complete, and its patch has been written.
      have handed : (entry.cut.slot, some host) ∈ History.hosts (History.ofRegistry h) := by
        rw [ledger.agrees.written, ← isHost]
        exact List.mem_map_of_mem member
      have taken := reached.accepted_of_host handed
      rw [History.accepted_ofRegistry] at taken
      obtain ⟨c, isComplete, rfl⟩ := List.mem_map.1 (complete.mem_iff.2 taken)
      rw [← History.completions_ofRegistry] at isComplete
      obtain ⟨texts, ends, patches⟩ :=
        reached.patches_of_handedOut (List.prefix_refl _) (by simpa using handedOut)
      obtain ⟨fallback, here⟩ := ledger.placed_in_host member isComplete (ends c isComplete) isHost
      have isPatch : .patch (Markup.slotName c.slot) (Markup.patch (Markup.slotName c.slot)
          (texts c.slot)) ∈ History.patches h := by
        rw [patches]
        exact List.mem_map_of_mem isComplete
      exact ⟨_, (List.mem_filter.1 isPatch).1, fallback, here.patch _⟩
  case patched =>
    intro n
    rw [← List.mem_map_of_injective Markup.slotName_injective, ← once.mem_iff, List.mem_filterMap]
    constructor
    · rintro ⟨markup, isPatch⟩
      exact ⟨_, isPatch, rfl⟩
    · rintro ⟨chunk, isChunk, isPatch⟩
      cases chunk with
      | literal | content => cases isPatch
      | patch slot markup =>
        obtain rfl := Option.some.inj isPatch
        exact ⟨markup, isChunk⟩
  case once => exact once
  case first => simpa using reached.accepted_prefix
  case all =>
    intro bodyFirst
    obtain ⟨_, _, _, layout⟩ := layout_of_readOut bodyFirst body fresh readOut clean
    exact layout.taken
  case nothing => exact fun nowhere => (outline.untaken nowhere).2

/-- A fragment that is deferred. -/
def late : Node :=
  .defer { pace := .ofDelays "late" [20] false, result := .ok "late" }
    (fun text => .node (.text text)) (.node (.text "wait")) none

theorem late_regular : late.Regular := by
  simp [late, Node.Regular, Built.Regular]

/-- What a document shows in which only the placeholder of the fragment is written. -/
def lateOnly : Chunk := .content (Markup.placeholder (Markup.slotName 0) "wait")

/-- A pattern with nothing but the body loses the content of a late fragment. -/
theorem loses_content : ∃ (settings : Settings) (body : Node) (h : List Happening),
    bodySlot ∈ settings.compiled.slots ∧ body.Regular ∧
      toChunkStream.ReadOut (start settings body {}).1 (start settings body {}).2 h ∧
      (∀ error, .error error ∉ History.yields h) ∧ ¬Lossless h := by
  let settings : Settings :=
    { timeout := 10, requestId := "r", template := some (Template.marker bodySlot) }
  have read : toChunkStream.readChunks? 2 9 {} (start settings late {}).1
      (start settings late {}).2 = some [lateOnly] := by
    decide +kernel
  have named : bodySlot ∈ settings.compiled.slots := by decide +kernel
  obtain ⟨h, readOut, chunks, clean⟩ := ChunkStream.readOut_of_readChunks? read
  refine ⟨settings, late, h, named, late_regular, readOut, clean, fun lossless => ?_⟩
  obtain ⟨markup, isPatch⟩ :=
    lossless lateOnly (chunks ▸ List.mem_cons_self) 0 "wait" (.refl _)
  rw [chunks, List.mem_singleton] at isPatch
  cases isPatch

/-- A pattern with the patches in front of the body: the fragment is discarded, for the registry has
    been given up when it is handed in. -/
theorem accounted_patches_first : ∃ (settings : Settings) (h : List Happening),
    patchesSlot ∈ settings.compiled.slots ∧ lateOnly ∈ History.chunks h ∧
      Accounted settings.compiled h ∧ History.accepted h = [] := by
  let settings : Settings :=
    { timeout := 10, requestId := "r"
      template := some (Template.marker patchesSlot ++ Template.marker bodySlot) }
  have read : toChunkStream.readChunks? 2 9 {} (start settings late {}).1
      (start settings late {}).2 = some [lateOnly] := by
    decide +kernel
  have named : bodySlot ∈ settings.compiled.slots := by decide +kernel
  have placed : patchesSlot ∈ settings.compiled.slots := by decide +kernel
  obtain ⟨h, readOut, chunks, clean⟩ := ChunkStream.readOut_of_readChunks? read
  have accounted := accounted named late_regular rfl readOut clean
  refine ⟨settings, h, placed, chunks ▸ List.mem_cons_self, accounted, ?_⟩
  have once := accounted.once
  rw [chunks] at once
  exact List.map_eq_nil_iff.1 once.symm.eq_nil

end Document

end ProgressiveHtml
