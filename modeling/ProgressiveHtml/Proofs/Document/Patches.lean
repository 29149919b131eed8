import ProgressiveHtml.Proofs.Document.Assignment

namespace ProgressiveHtml

/-!
# Documents — one patch for each late fragment, in its place

A document that is read to its end without an error has brought one patch for each fragment that was
handed in, at the place of the patches and nowhere else, in the order in which the fragments were
complete.

* `Template.filled` — the chunks of a template whose slots write given chunks;
* `Document.Delivers` — what a document has brought when it has been read;
* `Document.delivers` — every document that is read to its end has brought it.
-/

namespace Template

open Document

/-- The chunks of a template of whose slots each writes the chunks given for it. -/
def filled (t : Template) (outs : List (List Chunk)) : List Chunk :=
  Chunk.literals t.opening ++
    (t.sections.zip outs).flatMap fun part => part.2 ++ Chunk.literals part.1.2

/-- The roles of slots alone. -/
def slotRoles : List String → (body patches : Bool) → List Role
  | [], _, _ => []
  | name :: rest, body, patches =>
    slotRole name body patches ::
      slotRoles rest (body && name != bodySlot) (patches && name != patchesSlot)

theorem length_slotRoles (names : List String) (body patches : Bool) :
    (slotRoles names body patches).length = names.length := by
  induction names generalizing body patches with
  | nil => rfl
  | cons name rest ih => simp [slotRoles, ih]

/-- The body and the patches have the first slots that are named for them. -/
theorem getElem?_slotRoles (names : List String) (body patches : Bool) (i : Nat) :
    (slotRoles names body patches)[i]? = names[i]?.map fun _ =>
      if body && i == names.idxOf bodySlot then .body
      else if patches && i == names.idxOf patchesSlot then .patches
      else .plain := by
  induction names generalizing body patches i with
  | nil => rfl
  | cons name rest ih =>
    rw [slotRoles]
    cases i with
    | zero =>
      by_cases isBody : name = bodySlot
      · simp [slotRole, isBody, bodySlot_ne_patchesSlot]
      · by_cases isPatches : name = patchesSlot <;>
          simp [slotRole, isBody, isPatches, List.idxOf_cons_ne, bodySlot_ne_patchesSlot.symm]
    | succ i =>
      rw [List.getElem?_cons_succ, List.getElem?_cons_succ, ih]
      by_cases isBody : name = bodySlot
      · simp [isBody, bodySlot_ne_patchesSlot, List.idxOf_cons_ne]
      · by_cases isPatches : name = patchesSlot <;>
          simp [isBody, isPatches, List.idxOf_cons_ne, bodySlot_ne_patchesSlot.symm]

/-- What the parts behind the opening have written, slot by slot. -/
theorem wrote_sections {r : Rendering} {drained : List Chunk} {sections : List (String × String)}
    {body patches : Bool} {outs : List (List Chunk)}
    (wrote : List.Forall₂ (Role.Wrote r drained) (sectionRoles sections body patches) outs) :
    ∃ slotOuts, outs.flatten =
        (sections.zip slotOuts).flatMap (fun part => part.2 ++ Chunk.literals part.1.2) ∧
      List.Forall₂ (Role.Wrote r drained) (slotRoles (sections.map (·.1)) body patches)
        slotOuts := by
  induction sections generalizing body patches outs with
  | nil =>
    cases wrote
    exact ⟨[], rfl, .nil⟩
  | cons entry rest ih =>
    obtain ⟨name, text⟩ := entry
    rw [sectionRoles] at wrote
    obtain ⟨out, outs, here, others, rfl⟩ := List.forall₂_cons_left_iff.1 wrote
    obtain ⟨segment, outs, written, later, rfl⟩ := List.forall₂_cons_left_iff.1 others
    obtain ⟨slotOuts, same, wroteLater⟩ := ih later
    refine ⟨out :: slotOuts, ?_, .cons here wroteLater⟩
    have written : segment = Chunk.literals text := written
    simp [same, written]

end Template

namespace Document

/-- What a document with template `t` has brought: `outs` is what its slots have written. -/
structure Delivers (t : Template) (h : List Happening) (outs : List (List Chunk)) : Prop where
  /-- Literal text and slots come in the order of the template. -/
  written : History.chunks h = t.filled outs
  slots : outs.length = t.slots.length
  /-- The body is one chunk, unless it is empty. -/
  body : ∃ text, outs[t.slots.idxOf bodySlot]? = some (Chunk.contents text)
  /-- All patches come at the first place for them. -/
  place : outs[t.slots.idxOf patchesSlot]? = some (History.patches h)
  nowhereElse : ∀ i out, i ≠ t.slots.idxOf patchesSlot → outs[i]? = some out →
    ∀ chunk ∈ out, chunk.slot? = none
  /-- The fragments handed in got the numbers 0, 1, 2, …, and all were taken in. -/
  numbered : History.slots h = List.range (History.slots h).length
  taken : History.accepted h = History.slots h
  /-- There is one patch for each of them. -/
  once : ((History.patches h).filterMap Chunk.slot?).Perm
    ((History.slots h).map Markup.slotName)
  /-- The patches come in the order in which the fragments were complete. -/
  inOrder : (History.patches h).map .ok = (History.completions h).map (·.item)

/-- What is known of a document that was read to its end without an error: what it has brought, and
    how its body and its registry have come to their ends. -/
theorem delivers_course {settings : Settings} (bodyFirst : settings.compiled.BodyFirst) (body : Node)
    {w₀ : EventLoop} (fresh : w₀.registry = {}) {h : List Happening}
    (readOut : toChunkStream.ReadOut (start settings body w₀).1 (start settings body w₀).2 h)
    (clean : ∀ error, .error error ∉ History.yields h) :
    ∃ outs text w, Delivers settings.compiled h outs ∧
      outs[settings.compiled.slots.idxOf bodySlot]? = some (Chunk.contents text) ∧
      Rendering.Course (bodyRendering settings body) (History.ofRegistry h) (.done text) w ∧
      History.Settled h := by
  obtain ⟨outs, r, w, layout⟩ := layout_of_readOut bodyFirst body fresh readOut clean
  obtain ⟨opening, outs, written, wrote, rfl⟩ := List.forall₂_cons_left_iff.1 layout.wrote
  obtain ⟨slotOuts, same, wrote⟩ := Template.wrote_sections wrote
  obtain ⟨-, settled⟩ := layout.shut List.not_mem_nil
  have accounts := layout.course.reached.accounts
  -- What was written for a slot is as its name says.
  have roleAt {i : Nat} {out : List Chunk} (found : slotOuts[i]? = some out) :
      (if i == settings.compiled.slots.idxOf bodySlot then Role.body
        else if i == settings.compiled.slots.idxOf patchesSlot then .patches
        else .plain).Wrote r (History.patches h) out := by
    obtain ⟨role, isRole, wrote⟩ := forall₂_getElem? wrote found
    rw [Template.getElem?_slotRoles] at isRole
    obtain ⟨name, -, rfl⟩ := Option.map_eq_some_iff.1 isRole
    exact wrote
  have size : slotOuts.length = settings.compiled.slots.length := by
    rw [← wrote.length_eq, Template.length_slotRoles]
    rfl
  have patchesIn := List.idxOf_lt_length_of_mem bodyFirst.1
  have bodyIn := bodyFirst.2.trans patchesIn
  rw [← size] at patchesIn bodyIn
  have wroteBody := roleAt (List.getElem?_eq_getElem bodyIn)
  rw [if_pos (beq_self_eq_true _)] at wroteBody
  obtain ⟨text, rfl, isBody⟩ := wroteBody
  have isBody := isBody ▸ List.getElem?_eq_getElem bodyIn
  refine ⟨slotOuts, text, w, ?_, isBody, layout.course, settled⟩
  constructor
  case written =>
    have written : opening = Chunk.literals settings.compiled.opening := written
    simp [layout.chunks, Template.filled, same, written]
  case slots => exact size
  case body => exact ⟨text, isBody⟩
  case place =>
    have wrote := roleAt (List.getElem?_eq_getElem patchesIn)
    rw [if_neg (by simpa using bodyFirst.2.ne'), if_pos (beq_self_eq_true _)] at wrote
    have same : slotOuts[settings.compiled.slots.idxOf patchesSlot] = History.patches h := wrote
    rw [List.getElem?_eq_getElem patchesIn, same]
  case nowhereElse =>
    intro i out elsewhere found chunk member
    have written : ∃ text, out = Chunk.contents text := by
      have wrote := roleAt found
      split at wrote
      · obtain ⟨text, -, same⟩ := wrote
        exact ⟨text, same⟩
      · rw [if_neg (by simpa using elsewhere)] at wrote
        exact wrote
    obtain ⟨text, rfl⟩ := written
    simpa using List.filter_eq_nil_iff.1 (Chunk.contents_noPatch text) chunk member
  case numbered =>
    have numbered := accounts.slots
    rw [History.slots_ofRegistry] at numbered
    rw [numbered, List.length_range]
  case taken => exact layout.taken
  case once =>
    rw [layout.course.reached.slots_of_handedOut (by simpa using settled.handedOut),
      History.completions_ofRegistry]
    have complete := settled.complete.map Markup.slotName
    rwa [List.map_map] at complete
  case inOrder => exact settled.handedOut.symm

/-- Every document that is read to its end without an error brings one patch for each late fragment,
    in its place. -/
theorem delivers {settings : Settings} (bodyFirst : settings.compiled.BodyFirst) (body : Node)
    {w₀ : EventLoop} (fresh : w₀.registry = {}) {h : List Happening}
    (readOut : toChunkStream.ReadOut (start settings body w₀).1 (start settings body w₀).2 h)
    (clean : ∀ error, .error error ∉ History.yields h) :
    ∃ outs, Delivers settings.compiled h outs := by
  obtain ⟨outs, _, _, delivers, -⟩ := delivers_course bodyFirst body fresh readOut clean
  exact ⟨outs, delivers⟩

/-- A document with one late fragment, read without pauses. -/
theorem delivers_one_late : ∃ h outs,
    Delivers template h outs ∧ (History.patches h).length = 1 := by
  let settings : Settings := { timeout := 10, requestId := "r" }
  let body : Node := .defer { pace := .ofDelays "a" [20] false, result := .ok "late" }
    (fun text => .node (.text text)) (.node (.text "wait")) none
  have read : (toChunkStream.readChunks? 2 9 {} (start settings body {}).1
      (start settings body {}).2).map (fun chunks => (chunks.filter (·.slot?.isSome)).length) =
      some 1 := by
    decide +kernel
  obtain ⟨chunks, read, one⟩ := Option.map_eq_some_iff.1 read
  obtain ⟨h, readOut, rfl, clean⟩ := ChunkStream.readOut_of_readChunks? read
  have bodyFirst : settings.compiled.BodyFirst := by decide +kernel
  obtain ⟨outs, delivers⟩ := delivers bodyFirst body rfl readOut clean
  exact ⟨h, outs, delivers, one⟩

end Document

end ProgressiveHtml
