import ProgressiveHtml.Proofs.Document.Content
import ProgressiveHtml.Proofs.Document.Overtaking
import ProgressiveHtml.Proofs.Node.Page

namespace ProgressiveHtml

/-!
# Documents — when a placeholder has gone before its patch comes

A fallback may hold placeholders of its own.  They go with the fallback when the patch of the
fragment for which it stands in comes.  Patches come in the order of completion, and nothing makes
the fragments of a fallback complete before the fragment for which it stands in: a placeholder can
go before its own patch comes, which then finds nothing to replace.

* `Document.slots_of_patches` — the patches come in the order of completion;
* `Document.Outlasting` — no patch comes when its placeholder has gone with a fallback;
* `Document.standing_iff` — the patches that find their placeholders on the page;
* `Document.not_outlasting` — a document with a patch that does not.
-/

/-- The slots of the patches are those of all chunks that have one. -/
theorem History.filterMap_slot_patches (h : List Happening) :
    (patches h).filterMap Chunk.slot? = (chunks h).filterMap Chunk.slot? := by
  rw [patches, List.filterMap_filter]
  congr
  funext chunk
  cases chunk.slot? <;> rfl

namespace Document

/-- The patches come in the order in which their fragments were complete. -/
theorem slots_of_patches {settings : Settings} (bodyFirst : settings.compiled.BodyFirst)
    (body : Node) {w₀ : EventLoop} (fresh : w₀.registry = {}) {h : List Happening}
    (readOut : toChunkStream.ReadOut (start settings body w₀).1 (start settings body w₀).2 h)
    (clean : ∀ error, .error error ∉ History.yields h) :
    (History.completed h).Nodup ∧
      (History.chunks h).filterMap Chunk.slot? =
        (History.completed h).map Markup.slotName := by
  obtain ⟨_, _, w, -, -, course, settled⟩ := delivers_course bodyFirst body fresh readOut clean
  have once := course.reached.accounts.once
  have slots := course.reached.slots_of_handedOut (by simpa using settled.handedOut)
  rw [History.completions_ofRegistry] at once slots
  refine ⟨once, ?_⟩
  rw [← History.filterMap_slot_patches, slots, History.completed, List.map_map]
  rfl

/-- Whether no patch comes after the patch of a fragment whose placeholder has the placeholder of its
    own fragment in its fallback. -/
def Outlasting (h : List Happening) : Prop :=
  ∀ chunk ∈ History.chunks h, ∀ outer inner outside inside,
    Markup.Contains chunk.text (Markup.placeholder outer outside) →
    Markup.Contains outside (Markup.placeholder inner inside) →
    ∀ earlier markup later, History.chunks h = earlier ++ .patch inner markup :: later →
      ∀ markup, .patch outer markup ∉ earlier

/-- When the patch of a late fragment comes, the patches of exactly those fragments have come that were
    complete before.  Its placeholder is on the page exactly if the way to it is clear: the contents
    on the way have come, and since then no fragment was complete whose fallback is on the way. -/
theorem standing_iff {settings : Settings} (bodyFirst : settings.compiled.BodyFirst) {body : Node}
    (regular : body.Regular) {w₀ : EventLoop} (fresh : w₀.registry = {}) {h : List Happening}
    (readOut : toChunkStream.ReadOut (start settings body w₀).1 (start settings body w₀).2 h)
    (clean : ∀ error, .error error ∉ History.yields h) :
    ∃ outs parts, Delivers settings.compiled h outs ∧ Composed settings body h outs parts ∧
      ∀ earlier slot markup later, History.chunks h = earlier ++ .patch slot markup :: later →
        ∃ arrived n rest way, slot = Markup.slotName n ∧
          History.completed h = arrived ++ n :: rest ∧
          earlier.filterMap Chunk.slot? = arrived.map Markup.slotName ∧
          (∀ other, (other, n) ∈ Part.waysAll parts ↔ other = way) ∧
          (n ∈ Part.placeholdersAll (Part.page parts arrived) ↔ Part.Clear way n arrived) := by
  obtain ⟨outs, parts, delivers, composed⟩ := composed bodyFirst regular fresh readOut clean
  obtain ⟨once, order⟩ := slots_of_patches bodyFirst body fresh readOut clean
  refine ⟨outs, parts, delivers, composed, fun earlier slot markup later split => ?_⟩
  -- The slots of the patches up to this one are the first ones that were completed.
  have patched : earlier.filterMap Chunk.slot? ++ slot :: later.filterMap Chunk.slot? =
      (History.completed h).map Markup.slotName := by
    rw [← order, split, List.filterMap_append]
    rfl
  obtain ⟨arrived, onward, completed, before, after⟩ := List.map_eq_append_iff.1 patched.symm
  obtain ⟨n, rest, rfl, rfl, -⟩ := List.map_eq_cons_iff.1 after
  -- What is cut out of the body has different slots, and this one is among them.
  have cutOut : ((Part.patchesAll parts).map Prod.fst).Perm (History.completed h) := by
    have patches := composed.patches.symm.filterMap Chunk.slot?
    have slots : (Part.patchesAll parts).filterMap
        (Chunk.slot? ∘ fun cut => .patch (Markup.slotName cut.1)
          (Markup.patch (Markup.slotName cut.1) cut.2)) =
        ((Part.patchesAll parts).map Prod.fst).map Markup.slotName := by
      rw [List.map_map]
      exact congrFun List.filterMap_eq_map' _
    rw [History.filterMap_slot_patches, order, List.filterMap_map, slots] at patches
    exact (List.map_perm_map_iff Markup.slotName_injective).1 patches
  have isCutOut : n ∈ (Part.patchesAll parts).map Prod.fst := by
    rw [cutOut.mem_iff, completed]
    simp
  obtain ⟨way, onlyWay⟩ := Part.way_unique (cutOut.nodup_iff.2 once) isCutOut
  refine ⟨arrived, n, rest, way, rfl, completed, before.symm, onlyWay, ?_⟩
  rw [Part.mem_placeholders_page parts n arrived]
  simp only [onlyWay, exists_eq_left]

/-! ### A placeholder that goes with a fallback -/

/-- A fragment that takes long. -/
def slow : Node :=
  .defer { pace := .ofDelays "inner" [100] false, result := .ok "inner" }
    (fun text => .node (.text text)) (.node (.text "wait")) none

/-- A fragment that takes less long, in whose fallback the other one stands. -/
def nested : Node :=
  .defer { pace := .ofDelays "outer" [30] false, result := .ok "outer" }
    (fun text => .node (.text text)) (.node slow) none

theorem nested_regular : nested.Regular := by
  simp [nested, slow, Node.Regular, Built.Regular]

/-- When both fragments are cut out, one stands in the fallback of the other. -/
theorem nested_parts {env : Environment} {parts : List Part} (cutInto : nested.CutInto env parts)
    (both : (Part.patchesAll parts).length = 2) :
    ∃ outer inner,
      parts = [.cut outer [.cut inner [.text "wait"] [.text "inner"]] [.text "outer"]] := by
  obtain settled | ⟨-, outer, instead, content, cutInstead, settled, rfl⟩ :=
    Node.cutInto_defer.1 cutInto
  · obtain rfl : parts = [.text "outer"] := settled
    cases both
  · obtain rfl : content = [.text "outer"] := settled
    have cutInstead : slow.CutInto env instead := cutInstead
    obtain settled | ⟨-, inner, waiting, content, cutWaiting, settled, rfl⟩ :=
      Node.cutInto_defer.1 cutInstead
    · obtain rfl : instead = [.text "inner"] := settled
      cases both
    · obtain rfl : waiting = [.text "wait"] := cutWaiting
      obtain rfl : content = [.text "inner"] := settled
      exact ⟨outer, inner, rfl⟩

/-- The patch of the fragment with the fallback. -/
def outerPatch : Chunk := .patch "slot-0" (Markup.patch "slot-0" "outer")

/-- The patch of the fragment in the fallback. -/
def innerPatch : Chunk := .patch "slot-1" (Markup.patch "slot-1" "inner")

/-- The patch of the inner fragment comes after the patch that takes its placeholder away. -/
theorem exists_nested : ∃ (settings : Settings) (h : List Happening) (earlier later : List Chunk),
    settings.template = none ∧
      toChunkStream.ReadOut (start settings nested {}).1 (start settings nested {}).2 h ∧
      (∀ error, .error error ∉ History.yields h) ∧
      History.chunks h = earlier ++ innerPatch :: later ∧ outerPatch ∈ earlier ∧
      History.patches h = [outerPatch, innerPatch] ∧
      ∃ chunk ∈ earlier,
        chunk.text = Markup.placeholder "slot-0" (Markup.placeholder "slot-1" "wait") := by
  let settings : Settings := { timeout := 10, requestId := "r" }
  -- The run is evaluated once, for all that is said of its chunks.
  have read : (toChunkStream.readChunks? 2 9 {} (start settings nested {}).1
      (start settings nested {}).2).map (fun chunks =>
        (chunks[6]?, decide (outerPatch ∈ chunks.take 6), chunks.filter (·.slot?.isSome),
          (chunks.take 6).any
            (·.text == Markup.placeholder "slot-0" (Markup.placeholder "slot-1" "wait")))) =
      some (some innerPatch, true, [outerPatch, innerPatch], true) := by
    decide +kernel
  obtain ⟨chunks, read, same⟩ := Option.map_eq_some_iff.1 read
  obtain ⟨found, same⟩ := Prod.mk.inj same
  obtain ⟨earlier, same⟩ := Prod.mk.inj same
  obtain ⟨patches, body⟩ := Prod.mk.inj same
  obtain ⟨h, readOut, rfl, clean⟩ := ChunkStream.readOut_of_readChunks? read
  refine ⟨settings, h, (History.chunks h).take 6, (History.chunks h).drop 7, rfl, readOut, clean, ?_,
    of_decide_eq_true earlier, patches, by simpa using body⟩
  obtain ⟨inside, isChunk⟩ := List.getElem?_eq_some_iff.1 found
  rw [← isChunk, ← List.drop_eq_getElem_cons inside, List.take_append_drop]

/-- A patch can come after the one that takes its placeholder away. -/
theorem not_outlasting : ∃ (settings : Settings) (body : Node) (h : List Happening),
    settings.template = none ∧ body.Regular ∧
      toChunkStream.ReadOut (start settings body {}).1 (start settings body {}).2 h ∧
      (∀ error, .error error ∉ History.yields h) ∧ ¬Outlasting h := by
  obtain ⟨settings, h, earlier, later, builtIn, readOut, clean, split, come, -, chunk, isEarlier,
    text⟩ := exists_nested
  refine ⟨settings, nested, h, builtIn, nested_regular, readOut, clean, fun outlasting => ?_⟩
  have isChunk : chunk ∈ History.chunks h := split ▸ List.mem_append_left _ isEarlier
  have outer : Markup.Contains chunk.text
      (Markup.placeholder "slot-0" (Markup.placeholder "slot-1" "wait")) := text ▸ .refl _
  exact outlasting chunk isChunk _ _ _ _ outer (.refl _) _ _ _ split _ come

/-- The placeholder of the inner fragment is not on the page when its patch comes. -/
theorem nested_not_standing : ∃ (settings : Settings) (h : List Happening)
    (outs : List (List Chunk)) (parts : List Part) (arrived rest : List Nat),
    Composed settings nested h outs parts ∧ History.completed h = arrived ++ 1 :: rest ∧
      1 ∉ Part.placeholdersAll (Part.page parts arrived) := by
  obtain ⟨settings, h, earlier, later, builtIn, readOut, clean, split, come, patches, -⟩ :=
    exists_nested
  have bodyFirst : settings.compiled.BodyFirst := by
    rw [Settings.compiled, builtIn]
    decide +kernel
  obtain ⟨outs, parts, -, composed, standing⟩ :=
    standing_iff bodyFirst nested_regular rfl readOut clean
  -- The outer fragment has the first slot, as the texts of the patches tell.
  have brought := composed.patches
  rw [patches] at brought
  obtain ⟨outer, inner, rfl⟩ :=
    nested_parts composed.cutInto (by simpa using brought.length_eq.symm)
  obtain rfl : outer = 0 := by
    have named : Markup.slotName outer = "slot-0" := by
      have isPatch := brought.mem_iff.2 (List.mem_map_of_mem List.mem_cons_self)
      obtain same | same := List.mem_pair.1 isPatch
      · exact (Chunk.patch.inj same).1
      · obtain ⟨name, same⟩ := Chunk.patch.inj same
        have same : Markup.patch (Markup.slotName outer) "outer" = Markup.patch "slot-1" "inner" :=
          same
        rw [name] at same
        exact absurd same (by decide +kernel)
    exact Markup.slotName_injective named
  obtain ⟨arrived, n, rest, way, named, completed, slots, onlyWay, stands⟩ := standing _ _ _ _ split
  obtain rfl : 1 = n := Markup.slotName_injective named
  refine ⟨settings, h, outs, _, arrived, rest, composed, completed, fun here => ?_⟩
  have first : Markup.slotName 0 ∈ arrived.map Markup.slotName := by
    rw [← slots]
    exact List.mem_filterMap.2 ⟨outerPatch, come, rfl⟩
  rw [List.mem_map_of_injective Markup.slotName_injective] at first
  -- The only way to it leads into the fallback that has gone.
  have isWay := (onlyWay way).2 rfl
  simp only [Part.waysAll, Part.ways] at isWay
  obtain ⟨rfl, -⟩ : way = [.fallback 0] ∧ 1 = inner := by simpa using isWay
  exact (stands.1 here).1 first

end Document

end ProgressiveHtml
