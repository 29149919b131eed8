import Mathlib.Data.List.Basic
import ProgressiveHtml.Document
import ProgressiveHtml.Proofs.Document.Layout

namespace ProgressiveHtml

/-!
# Documents — which slot gets what

The first slot named for the body gets the body, and the first one named for the patches gets the
patches; all other slots get something plain.  So every document whose template has a place for the
patches behind the place of the body begins with its layout in order, and keeps it.

* `Template.BodyFirst` — the templates in which the body comes before the patches;
* `Template.roles` — the roles of the parts of a template;
* `Document.start_layout` — the layout when a document begins;
* `Document.layout_of_run`, `Document.layout_of_readOut` — the layout in a run.
-/

theorem Document.bodySlot_ne_patchesSlot : bodySlot ≠ patchesSlot := by decide

namespace Template

open Document

/-- Whether the template has a slot for the patches, and the first one comes behind the first slot of
    the body. -/
def BodyFirst (t : Template) : Prop :=
  patchesSlot ∈ t.slots ∧ t.slots.idxOf bodySlot < t.slots.idxOf patchesSlot

instance (t : Template) : Decidable t.BodyFirst := inferInstanceAs (Decidable (_ ∧ _))

/-- The role of a slot; `body` and `patches` tell whether these are still to be placed. -/
def slotRole (name : String) (body patches : Bool) : Role :=
  if body && name == bodySlot then .body
  else if patches && name == patchesSlot then .patches
  else .plain

/-- The roles of slots and of the text behind them. -/
def sectionRoles : List (String × String) → (body patches : Bool) → List Role
  | [], _, _ => []
  | (name, text) :: rest, body, patches =>
    slotRole name body patches :: .segment text ::
      sectionRoles rest (body && name != bodySlot) (patches && name != patchesSlot)

/-- The roles of all parts of a template. -/
def roles (t : Template) : List Role := .segment t.opening :: sectionRoles t.sections true true

theorem slotRole_eq_body {name : String} {body patches : Bool}
    (isBody : slotRole name body patches = .body) : body = true ∧ name = bodySlot := by
  unfold slotRole at isBody
  split at isBody
  · simp_all
  · split at isBody <;> cases isBody

theorem slotRole_eq_patches {name : String} {body patches : Bool}
    (isPatches : slotRole name body patches = .patches) :
    patches = true ∧ name = patchesSlot := by
  unfold slotRole at isPatches
  split at isPatches
  · cases isPatches
  · split at isPatches
    · simp_all
    · cases isPatches

theorem slotRole_plain {name : String} {body patches : Bool}
    (notBody : name = bodySlot → body = false) (notPatches : name = patchesSlot → patches = false) :
    slotRole name body patches = .plain := by
  by_cases isBody : name = bodySlot <;> by_cases isPatches : name = patchesSlot <;>
    simp_all [slotRole]

/-- What is placed has no other place. -/
theorem mem_sectionRoles {sections : List (String × String)} {body patches : Bool} {role : Role}
    (member : role ∈ sectionRoles sections body patches) :
    (role = .body → body = true) ∧ (role = .patches → patches = true) := by
  induction sections generalizing body patches with
  | nil => simp [sectionRoles] at member
  | cons entry rest ih =>
    obtain ⟨name, text⟩ := entry
    rw [sectionRoles, List.mem_cons, List.mem_cons] at member
    obtain rfl | rfl | later := member
    · exact ⟨fun same => (slotRole_eq_body same).1, fun same => (slotRole_eq_patches same).1⟩
    · simp
    · obtain ⟨ofBody, ofPatches⟩ := ih later
      exact ⟨fun same => (Bool.and_eq_true_iff.1 (ofBody same)).1,
        fun same => (Bool.and_eq_true_iff.1 (ofPatches same)).1⟩

/-- The body and the patches are placed once each, and in order. -/
theorem pairwise_sectionRoles {sections : List (String × String)} {body patches : Bool}
    (inOrder : body = true → patches = true →
      (sections.map (·.1)).idxOf bodySlot < (sections.map (·.1)).idxOf patchesSlot) :
    (sectionRoles sections body patches).Pairwise Role.MayPrecede := by
  induction sections generalizing body patches with
  | nil => exact .nil
  | cons entry rest ih =>
    obtain ⟨name, text⟩ := entry
    rw [List.map_cons] at inOrder
    -- What the first section takes is not placed by the others, so their order is that of what is
    -- left.
    have later : (sectionRoles rest (body && name != bodySlot)
        (patches && name != patchesSlot)).Pairwise Role.MayPrecede := by
      apply ih
      intro isBody isPatches
      simp only [Bool.and_eq_true, bne_iff_ne] at isBody isPatches
      have order := inOrder isBody.1 isPatches.1
      rw [List.idxOf_cons_ne _ isBody.2, List.idxOf_cons_ne _ isPatches.2] at order
      exact Nat.lt_of_succ_lt_succ order
    refine .cons ?_ (.cons ?_ later)
    -- The section itself: its role is not taken again, and the body is not behind the patches.
    · intro role member
      obtain rfl | member := List.mem_cons.1 member
      · simp [Role.MayPrecede]
      obtain ⟨ofBody, ofPatches⟩ := mem_sectionRoles member
      constructor
      · rintro ⟨isBody, again⟩
        have same := (slotRole_eq_body isBody).2
        simpa [same] using ofBody again
      · rintro ⟨isPatches, again⟩
        obtain ⟨left, same⟩ := slotRole_eq_patches isPatches
        obtain again | isBody := again
        · simpa [same] using ofPatches again
        · have order := inOrder (Bool.and_eq_true_iff.1 (ofBody isBody)).1 left
          rw [same, List.idxOf_cons_self] at order
          exact Nat.not_lt_zero _ order
    · intro role _
      simp [Role.MayPrecede]

/-- A slot has the same role whether or not another one stands before it. -/
theorem slotRole_behind {name other : String} (apart : other ≠ name) (body patches : Bool) :
    slotRole name (body && other != bodySlot) (patches && other != patchesSlot) =
      slotRole name body patches := by
  by_cases isBody : name = bodySlot
  · have notBody : other ≠ bodySlot := isBody ▸ apart
    simp [slotRole, isBody, notBody, bodySlot_ne_patchesSlot]
  · by_cases isPatches : name = patchesSlot
    · have notPatches : other ≠ patchesSlot := isPatches ▸ apart
      simp [slotRole, isPatches, notPatches, bodySlot_ne_patchesSlot.symm]
    · simp [slotRole, isBody, isPatches]

/-- A slot that is named has its place. -/
theorem slotRole_mem_sectionRoles {sections : List (String × String)} {name : String}
    (named : name ∈ sections.map (·.1)) (body patches : Bool) :
    slotRole name body patches ∈ sectionRoles sections body patches := by
  induction sections generalizing body patches with
  | nil => simp at named
  | cons entry rest ih =>
    obtain ⟨first, text⟩ := entry
    rw [sectionRoles]
    by_cases here : first = name
    · rw [here]
      exact List.mem_cons_self
    · have later : name ∈ rest.map (·.1) := by simpa [Ne.symm here] using named
      rw [← slotRole_behind here body patches]
      exact List.mem_cons_of_mem _ (List.mem_cons_of_mem _ (ih later _ _))

/-- The roles of a template in which the body comes before the patches. -/
theorem BodyFirst.orderly {t : Template} (bodyFirst : t.BodyFirst) : Role.Orderly t.roles where
  ordered := by
    refine .cons ?_ (pairwise_sectionRoles fun _ _ => bodyFirst.2)
    intro role _
    simp [Role.MayPrecede]
  body := by
    have named : bodySlot ∈ t.slots :=
      List.idxOf_lt_length_iff.1 (bodyFirst.2.trans_le List.idxOf_le_length)
    exact List.mem_cons_of_mem _ (slotRole_mem_sectionRoles named true true)
  patches := List.mem_cons_of_mem _ (slotRole_mem_sectionRoles bodyFirst.1 true true)

end Template

/-! ### The sources of a document -/

@[simp] theorem Named.get?_empty {α : Type} (name : String) : ({} : Named α).get? name = none := rfl

namespace Sources

open Document

/-- Sources from which the body (as `r`) and the patches may still be taken; all others are plain. -/
structure Holds (sources : Sources) (r : Rendering) (body patches : Bool) : Prop where
  body : sources.get? bodySlot = if body then some (.rendering r) else none
  patches : sources.get? patchesSlot = if patches then some (.sequence .patches) else none
  others : ∀ name source, name ≠ bodySlot → name ≠ patchesSlot →
    sources.get? name = some source → source.Plain

variable {sources : Sources} {r : Rendering} {body patches : Bool}

/-- The sources left when one is taken away. -/
theorem Holds.erase (holds : sources.Holds r body patches) (name : String) :
    Holds (Named.erase sources name) r (body && name != bodySlot) (patches && name != patchesSlot) where
  body := by
    rw [Named.get?_erase, holds.body]
    by_cases here : bodySlot = name
    · simp [here]
    · simp [here, Ne.symm here]
  patches := by
    rw [Named.get?_erase, holds.patches]
    by_cases here : patchesSlot = name
    · simp [here]
    · simp [here, Ne.symm here]
  others other source notBody notPatches found := by
    rw [Named.get?_erase] at found
    split at found
    · cases found
    · exact holds.others other source notBody notPatches found

/-- The sources left when neither the body nor the patches are taken. -/
theorem Holds.keep (holds : sources.Holds r body patches) {name : String}
    (notBody : name = bodySlot → body = false) (notPatches : name = patchesSlot → patches = false) :
    sources.Holds r (body && name != bodySlot) (patches && name != patchesSlot) := by
  have sameBody : (body && name != bodySlot) = body := by
    by_cases here : name = bodySlot <;> simp [here, notBody]
  have samePatches : (patches && name != patchesSlot) = patches := by
    by_cases here : name = patchesSlot <;> simp [here, notPatches]
  rw [sameBody, samePatches]
  exact holds

/-- Taking the source of a slot gives the slot its role. -/
theorem Holds.take (holds : sources.Holds r body patches) (name : String) :
    (Template.slotRole name body patches).Plays r (.slot (sources.take name).1) ∧
      (sources.take name).2.Holds r (body && name != bodySlot) (patches && name != patchesSlot) := by
  have erased := holds.erase name
  by_cases takesBody : name = bodySlot ∧ body = true
  · obtain ⟨rfl, rfl⟩ := takesBody
    simpa [Sources.take, holds.body, Role.Plays, Template.slotRole] using erased
  by_cases takesPatches : name = patchesSlot ∧ patches = true
  · obtain ⟨rfl, rfl⟩ := takesPatches
    simpa [Sources.take, holds.patches, Role.Plays, Template.slotRole,
      bodySlot_ne_patchesSlot.symm] using erased
  have notBody : name = bodySlot → body = false := by simpa using takesBody
  have notPatches : name = patchesSlot → patches = false := by simpa using takesPatches
  have kept := holds.keep notBody notPatches
  rw [Template.slotRole_plain notBody notPatches]
  unfold Sources.take
  split <;> rename_i found
  · refine ⟨⟨_, rfl, fun given same => ?_⟩, kept⟩
    obtain rfl := Option.some.inj same
    trivial
  · refine ⟨⟨_, rfl, fun given same => ?_⟩, erased⟩
    obtain rfl := Option.some.inj same
    -- The slots of the body and of the patches have nothing left to take.
    have other : name ≠ bodySlot ∧ name ≠ patchesSlot := by
      constructor <;> rintro rfl
      · simp [holds.body, notBody] at found
      · simp [holds.patches, notPatches] at found
    exact holds.others name _ other.1 other.2 found
  · exact ⟨⟨none, rfl, by simp⟩, kept⟩

/-- Assigning sources to slots gives all slots their roles. -/
theorem Holds.assign (holds : sources.Holds r body patches) (sections : List (String × String))
    (w : EventLoop) :
    List.Forall₂ (Role.Plays r) (Template.sectionRoles sections body patches)
        (TemplateStream.assign sections sources w).1 ∧
      (∃ body' patches', (TemplateStream.assign sections sources w).2.1.Holds r body' patches' ∧
        (patches' = true → patches = true ∧ patchesSlot ∉ sections.map (·.1))) ∧
      (TemplateStream.assign sections sources w).2.2.registry = w.registry := by
  induction sections generalizing sources body patches w with
  | nil => exact ⟨.nil, ⟨body, patches, holds, by simp⟩, rfl⟩
  | cons entry rest ih =>
    obtain ⟨name, text⟩ := entry
    obtain ⟨plays, left⟩ := holds.take name
    obtain ⟨w', same, assigned⟩ := TemplateStream.assign_cons name text rest sources w
    obtain ⟨others, ⟨body', patches', holds', unplaced⟩, still⟩ := ih left w'
    rw [assigned]
    refine ⟨.cons plays (.cons rfl others), ⟨body', patches', holds', fun remains => ?_⟩,
      still.trans same⟩
    obtain ⟨before, absent⟩ := unplaced remains
    simp only [Bool.and_eq_true, bne_iff_ne] at before
    refine ⟨before.1, ?_⟩
    rw [List.map_cons, List.mem_cons, not_or]
    exact ⟨before.2.symm, absent⟩

/-- Giving up sources among which the patches are not does not concern the registry. -/
theorem Holds.release (holds : sources.Holds r body false) (w : EventLoop) :
    (sources.entries.foldl (fun w source => source.2.release w) w).registry = w.registry := by
  -- Only a sequence holds anything, and the only sequence would be that of the patches.
  have harmless (entry : String × Source) (member : entry ∈ sources.entries) (w : EventLoop) :
      entry.2.release w = w := by
    have found := (Named.get?_eq_some_iff _).2 member
    by_cases isBody : entry.1 = bodySlot
    · rw [isBody, holds.body] at found
      split at found
      · rw [← Option.some.inj found]
        rfl
      · cases found
    · by_cases isPatches : entry.1 = patchesSlot
      · rw [isPatches, holds.patches] at found
        cases found
      · have plain := holds.others _ _ isBody isPatches found
        cases same : entry.2 with
        | sequence => simp [same, Source.Plain] at plain
        | _ => rfl
  generalize sources.entries = entries at harmless
  induction entries with
  | nil => rfl
  | cons entry rest ih =>
    rw [List.foldl_cons, harmless entry List.mem_cons_self]
    exact ih fun entry member => harmless entry (List.mem_cons_of_mem _ member)

/-- What a stream begins with: all slots have got their roles, and the registry is as it was. -/
theorem Holds.start {t : Template} (holds : sources.Holds r true true)
    (named : patchesSlot ∈ t.slots) (w : EventLoop) :
    List.Forall₂ (Role.Plays r) t.roles (TemplateStream.start t sources w).1.pieces ∧
      (TemplateStream.start t sources w).1.finished = false ∧
      (TemplateStream.start t sources w).2.registry = w.registry := by
  obtain ⟨plays, ⟨body', patches', left, unplaced⟩, same⟩ := holds.assign t.sections w
  have placed : patches' = false := by
    by_contra remains
    exact (unplaced (by simpa using remains)).2 named
  rw [placed] at left
  exact ⟨.cons rfl plays, rfl, (left.release _).trans same⟩

end Sources

/-! ### The beginning of a document -/

/-- The template of a document with these settings. -/
def Settings.compiled (settings : Settings) : Template :=
  (settings.template.map Template.compile).getD Document.template

namespace Document

/-- The body of a document before anything has been done for it. -/
def bodyRendering (settings : Settings) (body : Node) : Rendering :=
  (Built.node body).rendering (Environment.empty.deferringAfter settings.timeout)

/-- The source of a name in a document. -/
theorem get?_sources (settings : Settings) (body : Node) (name : String) :
    Named.get? (sources settings body) name =
      if name = endOfBodySlot ∧ settings.endOfBody.isSome then
        settings.endOfBody.map fun node => .ofNode node .empty
      else if name = patchesSlot then some (.sequence .patches)
      else if name = bodySlot then some (.rendering (bodyRendering settings body))
      else if name = padSlot then some (.text pad)
      else if name = headSlot then
        some (.ofNode (settings.head.getD (.head "" [])) .empty)
      else none := by
  unfold sources Named.ofList
  rw [List.foldl_append]
  cases settings.endOfBody with
  | none => simp [Named.get?_put, Named.get?_empty, Source.ofNode, bodyRendering]
  | some node => simp [Named.get?_put, Named.get?_empty, Source.ofNode, bodyRendering]

/-- The sources of a document: its body, the patches, and otherwise plain ones. -/
theorem sources_holds (settings : Settings) (body : Node) :
    (sources settings body).Holds (bodyRendering settings body) true true where
  body := by simp [get?_sources, bodySlot, endOfBodySlot, patchesSlot]
  patches := by simp [get?_sources, endOfBodySlot, patchesSlot]
  others name source notBody notPatches found := by
    have silent (node : Node) : (Source.ofNode node .empty).Plain :=
      (Built.node node).silent_rendering rfl
    rw [get?_sources, if_neg notPatches, if_neg notBody] at found
    split at found
    · obtain ⟨node, -, rfl⟩ := Option.map_eq_some_iff.1 found
      exact silent node
    · split at found
      · obtain rfl := Option.some.inj found
        trivial
      · split at found
        · obtain rfl := Option.some.inj found
          exact silent _
        · cases found

/-- What a document begins with: all slots have got their roles, and the registry is as it was. -/
theorem start_plays {settings : Settings} (bodyFirst : settings.compiled.BodyFirst) (body : Node)
    (w : EventLoop) :
    List.Forall₂ (Role.Plays (bodyRendering settings body)) settings.compiled.roles
        (start settings body w).1.stream.pieces ∧
      (start settings body w).1.stream.finished = false ∧
      (start settings body w).2.registry = w.registry := by
  obtain ⟨plays, goesOn, same⟩ := (sources_holds settings body).start bodyFirst.1
    (w.onBehalfOf (journalName settings.requestId)
      fun w => ((), w.note (.notice (.renderingDocument settings.timeout)))).2
  exact ⟨plays, goesOn, same⟩

/-- A document begins with its layout in order. -/
theorem start_layout {settings : Settings} (bodyFirst : settings.compiled.BodyFirst) (body : Node)
    {w : EventLoop} (fresh : w.registry = {}) :
    Layout (bodyRendering settings body) [] settings.compiled.roles [] (bodyRendering settings body)
      [] (start settings body w).1.stream.pieces (start settings body w).2 := by
  obtain ⟨plays, -, same⟩ := start_plays bodyFirst body w
  have fresh : (start settings body w).2.registry = {} := same.trans fresh
  constructor
  case orderly => exact bodyFirst.orderly
  case plays => exact plays
  case wrote => exact .nil
  case course => exact .start fresh
  case chunks => simp [History.chunks, History.patches]
  case ahead => exact fun _ => rfl
  case stillOpen => exact fun _ => fresh ▸ rfl
  case shut => exact fun behind => absurd bodyFirst.orderly.patches behind
  case taken => rfl

/-! ### Runs of a document -/

/-- What a document reports about its chunks does not concern its pieces. -/
theorem record_went (d : Document) {pieces : List Piece} {w : EventLoop} {h : List Happening}
    {result : StreamPoll TemplateStream × EventLoop}
    (went : TemplateStream.Went id pieces w h result) :
    TemplateStream.Went Document.stream pieces w h (d.record result) ∧
      (d.record result).2.registry = result.2.registry := by
  match result, went with
  | (.ready none s, _), ⟨ended, moves⟩ => exact ⟨⟨ended, moves.amid rfl rfl⟩, rfl⟩
  | (.ready (some (.ok chunk)) s, _), went => exact ⟨went, rfl⟩
  | (.ready (some (.error _)) s, _), _ => exact ⟨trivial, rfl⟩
  | (.pending s, _), went => exact ⟨went, rfl⟩
  | (.panicked _, _), _ => exact ⟨trivial, rfl⟩

/-- Asking a document for a chunk is a sequence of moves over its pieces. -/
theorem poll_moves (d : Document) (w : EventLoop)
    (sound : d.stream.finished → d.stream.pieces = []) :
    TemplateStream.Went Document.stream d.stream.pieces w (w.handedInSince (d.poll w).2)
      (d.poll w) := by
  let asked : EventLoop :=
    { w with timeline := { w.timeline with document := some (journalName d.requestId) } }
  obtain ⟨went, same⟩ := d.record_went (d.stream.poll_moves asked sound)
  have since : w.handedInSince (d.poll w).2 = asked.handedInSince (d.stream.poll asked).2 := by
    show w.handedInSince (d.record (d.stream.poll asked)).2 = _
    rw [EventLoop.handedInSince, EventLoop.handedInSince, same]
  have answered : d.poll w = ((d.record (d.stream.poll asked)).1, (d.poll w).2) := rfl
  rw [since, answered]
  have untouched : asked.registry = w.registry := rfl
  exact .amid untouched went rfl

/-- The layout of a document in some stage of a run. -/
def LaidOut (first : Rendering) (roles : List Role) (h : List Happening) (pieces : List Piece)
    (w : EventLoop) : Prop :=
  ∃ passed todo outs r, passed ++ todo = roles ∧ Layout first passed todo outs r h pieces w

variable {first : Rendering} {roles : List Role} {h new : List Happening}
  {pieces pieces' : List Piece} {w w' : EventLoop}

theorem LaidOut.moves (laidOut : LaidOut first roles h pieces w)
    (moves : TemplateStream.Moves pieces w new pieces' w') :
    LaidOut first roles (h ++ new) pieces' w' := by
  refine moves.keeps laidOut ?_
  rintro h new pieces pieces' w w' ⟨passed, todo, outs, r, rfl, layout⟩ move
  exact layout.move move

/-- In every run of a document without an error its layout is in order. -/
theorem layout_of_run {settings : Settings} (bodyFirst : settings.compiled.BodyFirst) (body : Node)
    {w₀ : EventLoop} (fresh : w₀.registry = {}) {d : Document}
    (run : toChunkStream.Run (start settings body w₀).1 (start settings body w₀).2 h d w)
    (clean : ∀ error, .error error ∉ History.yields h) :
    LaidOut (bodyRendering settings body) settings.compiled.roles h d.stream.pieces w ∧
      (d.stream.finished → d.stream.pieces = []) := by
  induction run with
  | start =>
    refine ⟨⟨[], _, [], _, rfl, start_layout bodyFirst body fresh⟩, fun finished => ?_⟩
    rw [(start_plays bodyFirst body w₀).2.1] at finished
    cases finished
  | background _ move ih =>
    rw [History.yields_append, move.yields, List.append_nil] at clean
    obtain ⟨⟨passed, todo, outs, r, same, layout⟩, sound⟩ := ih clean
    exact ⟨⟨passed, todo, outs, r, same, layout.background move⟩, sound⟩
  | @poll h d next w w' answer _ asked onward ih =>
    simp only [History.yields_append, List.mem_append, not_or, EventLoop.handedInSince,
      History.yields_handIns, History.yields_reads] at clean
    obtain ⟨laidOut, sound⟩ := ih fun error => (clean error).1
    have went := d.poll_moves w sound
    rw [show d.poll w = (answer, w') from asked] at went
    obtain ⟨moves, sound⟩ := went.moves onward fun error => (clean error).2.2
    exact ⟨laidOut.moves moves, sound⟩

/-- In every run of a document to its end, without an error, its layout is complete. -/
theorem layout_of_readOut {settings : Settings} (bodyFirst : settings.compiled.BodyFirst)
    (body : Node) {w₀ : EventLoop} (fresh : w₀.registry = {})
    (readOut : toChunkStream.ReadOut (start settings body w₀).1 (start settings body w₀).2 h)
    (clean : ∀ error, .error error ∉ History.yields h) :
    ∃ outs r w, Layout (bodyRendering settings body) settings.compiled.roles [] outs r h [] w := by
  obtain ⟨run, asked⟩ := readOut
  rename_i h d last w w'
  have earlier : ∀ error, .error error ∉ History.yields h := by
    simpa [EventLoop.handedInSince] using clean
  obtain ⟨laidOut, sound⟩ := layout_of_run bodyFirst body fresh run earlier
  have went := d.poll_moves w sound
  rw [show d.poll w = (.ready none last, w') from asked] at went
  obtain ⟨ended, moves⟩ := went
  obtain ⟨passed, todo, outs, r, same, layout⟩ := laidOut.moves moves
  obtain rfl : todo = [] := by simpa using layout.plays
  rw [List.append_nil] at same
  exact ⟨outs, r, w', same ▸ layout⟩

end Document

end ProgressiveHtml
