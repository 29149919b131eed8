import ProgressiveHtml.Proofs.Document.Patches
import ProgressiveHtml.Proofs.Rendering.Filling

namespace ProgressiveHtml

/-!
# Documents — deferring does not change the content

A document that is read to its end without an error has brought the whole content of its body: where
the body stands, some fragments were cut out, and the patches bring what was cut out.

* `Node.run_inlined` — the text of a tree where nothing can be deferred;
* `Document.Composed` — the body and the patches of a document, as parts of one tree;
* `Document.composed` — every document that is read to its end is composed like this.
-/

/-! ### Without a registry -/

namespace Rendering

variable {r : Rendering} {w w' : EventLoop} {text : String}

/-- What is promised of a text holds of the text that the main task waits for. -/
theorem Ensures.runWithin (property : String → Prop)
    (ensures : r.Ensures fun o => property o.text) (turns patience : Nat)
    (run : r.runWithin turns patience w = (.ok (some (.ok text)), w')) : property text := by
  have onward {r r' : Rendering} {w w' : EventLoop}
      (ensures : r.Ensures fun o => property o.text) (polled : r.poll w = (r', w')) :
      r'.Ensures fun o => property o.text := by
    obtain ⟨handed, steps⟩ := r.poll_steps w
    obtain ⟨cuts, -, ensures⟩ := ensures.steps steps
    rwa [polled] at ensures
  have left : EventLoop.LeavesOff awaitable (fun r _ => r.Ensures fun o => property o.text)
      (w.wait awaitable turns (w.now + patience) r) :=
    EventLoop.waitRounds_induct turns _ _ ensures
      (fun ensures polled => onward ensures (poll_of_pending polled)) fun ensures _ => ensures
  rw [Rendering.runWithin] at run
  generalize w.wait awaitable turns (w.now + patience) r = waited at left run
  match waited, left with
  | (.ready result _, _), ⟨_, _, ensures, polled⟩ =>
    obtain ⟨rfl, rfl⟩ : result = .ok text ∧ _ = w' := by simpa using run
    exact onward ensures (poll_of_ready polled)
  | (.expired _, _), _ => simp at run
  | (.panicked _, _), _ => simp at run

end Rendering

/-- Where nothing can be deferred a regular tree is rendered to its text. -/
theorem Node.run_inlined {node : Node} (regular : node.Regular) {env : Environment}
    (inline : env.deferral = none) (first turns patience : Nat) {w w' : EventLoop} {text : String}
    (run : (node.rendering env first).runWithin turns patience w = (.ok (some (.ok text)), w')) :
    text = node.inlined env.values := by
  refine Rendering.Ensures.runWithin (· = node.inlined env.values) ?_ turns patience run
  exact (node.ensures_rendering regular env first).mono fun _ shows => shows.whole inline

/-! ### With a registry -/

namespace Document

/-- How a document is composed: `parts` are its body with the contents of some fragments cut out, and
    `outs` is what its slots have written. -/
structure Composed (settings : Settings) (tree : Node) (h : List Happening)
    (outs : List (List Chunk)) (parts : List Part) : Prop where
  cutInto : tree.CutInto (Environment.empty.deferringAfter settings.timeout) parts
  /-- The body stands in place, with placeholders for what was cut out. -/
  inPlace : outs[settings.compiled.slots.idxOf bodySlot]? =
    some (Chunk.contents (Part.shownAll parts))
  /-- The patches bring what was cut out. -/
  patches : (History.patches h).Perm ((Part.patchesAll parts).map fun cut =>
    .patch (Markup.slotName cut.1) (Markup.patch (Markup.slotName cut.1) cut.2))
  /-- The whole content is the text of the tree. -/
  inlined : Part.inlinedAll parts = tree.inlined {}
  /-- It is the text to which the same tree is rendered without a registry. -/
  whole : ∀ first turns patience w text w',
    (tree.rendering Environment.empty first).runWithin turns patience w =
      (.ok (some (.ok text)), w') → Part.inlinedAll parts = text

/-- A document with a body that is a regular tree, read to its end without an error, has brought the
    content of its body, in place and by patches. -/
theorem composed {settings : Settings} (bodyFirst : settings.compiled.BodyFirst) {body : Node}
    (regular : body.Regular) {w₀ : EventLoop} (fresh : w₀.registry = {}) {h : List Happening}
    (readOut : toChunkStream.ReadOut (start settings body w₀).1 (start settings body w₀).2 h)
    (clean : ∀ error, .error error ∉ History.yields h) :
    ∃ outs parts, Delivers settings.compiled h outs ∧ Composed settings body h outs parts := by
  obtain ⟨outs, text, w, delivers, inPlace, course, settled⟩ :=
    delivers_course bodyFirst body fresh readOut clean
  have promised : (bodyRendering settings body).Ensures
      (body.Shows (Environment.empty.deferringAfter settings.timeout)) :=
    fun first => body.ensures_rendering regular _ first
  obtain ⟨entries, ledger⟩ := course.ledger promised
  -- All fragments are complete, and the patches bring their texts.
  obtain ⟨texts, ends, patches⟩ := course.reached.patches_of_handedOut
    (List.prefix_refl _) (by simpa using settled.handedOut)
  have complete : Ledger.Complete entries texts := by
    intro entry member
    have given : entry.cut.slot ∈ History.slots h := by
      have slots := course.reached.accounts.slots
      rw [History.slots_ofRegistry] at slots
      rw [slots]
      exact List.mem_range.2 (ledger.agrees.slot_lt member)
    obtain ⟨c, isComplete, same⟩ := List.mem_map.1 (settled.complete.symm.subset given)
    have isComplete : c ∈ History.completions (History.ofRegistry h) := by simpa using isComplete
    exact ledger.shows_complete isComplete (same ▸ ends c isComplete) member same
  obtain ⟨fill, fills⟩ := Ledger.exists_filling ledger.agrees complete
  have solves : Solves fill (Ledger.handedIn entries none) := fun cut handed =>
    (fills _ (Ledger.mem_handedIn.1 handed)).cutInto
  obtain ⟨parts, cutInto, filled⟩ := Node.Shows.cutInto body ledger.shows_body solves
  have pieces := Ledger.patches_of_filling ledger.agrees fills filled
  have inlined := cutInto.inlined
  refine ⟨outs, parts, delivers, ?_⟩
  constructor
  case cutInto => exact cutInto
  case inPlace => rw [filled.text, inPlace]
  case patches =>
    let patch (cut : Nat × String) : Chunk :=
      .patch (Markup.slotName cut.1) (Markup.patch (Markup.slotName cut.1) cut.2)
    have brought : History.patches h =
        ((History.completions h).map (·.slot)).map fun slot => patch (slot, texts slot) := by
      rw [patches, History.completions_ofRegistry, List.map_map]
      rfl
    have numbered : History.slots h = List.range w.registry.next := by
      simpa using course.reached.accounts.slots
    rw [brought, ← Function.comp_def patch, ← List.map_map]
    exact (((numbered ▸ settled.complete).map _).trans pieces.symm).map patch
  case inlined => exact inlined
  case whole =>
    intro first turns patience w text w' run
    rw [Node.run_inlined regular rfl first turns patience run]
    exact inlined

/-- A document with a late fragment in whose fallback another late fragment stands. -/
theorem composed_late_fallback : ∃ settings body h outs parts,
    Composed settings body h outs parts ∧ (Part.patchesAll parts).length = 2 := by
  let settings : Settings := { timeout := 10, requestId := "r" }
  let inner : Node := .defer { pace := .ofDelays "inner" [30] false, result := .ok "inner" }
    (fun text => .node (.text text)) (.node (.text "wait")) none
  let body : Node := .defer { pace := .ofDelays "outer" [50] false, result := .ok "outer" }
    (fun text => .node (.text text)) (.node inner) none
  have read : (toChunkStream.readChunks? 3 9 {} (start settings body {}).1
      (start settings body {}).2).map (fun chunks => (chunks.filter (·.slot?.isSome)).length) =
      some 2 := by
    decide +kernel
  obtain ⟨chunks, read, two⟩ := Option.map_eq_some_iff.1 read
  obtain ⟨h, readOut, rfl, clean⟩ := ChunkStream.readOut_of_readChunks? read
  have bodyFirst : settings.compiled.BodyFirst := by decide +kernel
  have regular : body.Regular := by
    simp [body, inner, Node.Regular, Built.Regular]
  obtain ⟨outs, parts, -, composed⟩ := composed bodyFirst regular rfl readOut clean
  refine ⟨settings, body, h, outs, parts, composed, ?_⟩
  have length := composed.patches.length_eq
  rw [List.length_map] at length
  rw [← length]
  exact two

end Document

end ProgressiveHtml
