import ProgressiveHtml.Proofs.Document.Cancellation
import ProgressiveHtml.Proofs.Document.InCompany
import ProgressiveHtml.Proofs.Node.Pace

namespace ProgressiveHtml

/-!
# Documents — latency

A document in the built-in template that is read without pauses is complete as soon as the slowest of its
parts is.  Head, body, trailing content and late fragments all go on at the same time, each as if it were
alone.

* `Document.start_pieces` — the pieces of a document in the built-in template;
* `Document.Settle`, `Document.Become` — when its parts settle on their own, and what they become;
* `Document.Latency` — when its chunks come, and when it ends;
* `Document.latency` — the latency of a document that is read to its end.
-/

open Rendering EventLoop

namespace Document

/-! ### The beginning -/

/-- The head of a document before anything has been done for it. -/
def headRendering (settings : Settings) : Rendering :=
  (Built.node (settings.head.getD (.head "" []))).rendering .empty

/-- The trailing content of a document before anything has been done for it. -/
def trailingRendering (node : Node) : Rendering := (Built.node node).rendering .empty

/-- The text in front of the head. -/
def headOpening : String := "<!DOCTYPE html><html lang=\"en\"><head>"

/-- The text between head and body. -/
def bodyOpening : String := "</head><body>"

/-- The text at the end. -/
def bodyClosing : String := "</body></html>"

theorem template_eq : template =
    { opening := headOpening
      sections := [(headSlot, bodyOpening), (padSlot, ""), (bodySlot, ""), (patchesSlot, ""),
        (endOfBodySlot, bodyClosing)] } := by
  decide +kernel

/-- The pieces of a document in the built-in template. -/
theorem start_pieces {settings : Settings} (builtIn : settings.compiled = template) (body : Node)
    (w : EventLoop) : (start settings body w).1.stream.pieces =
      [.segment headOpening, .slot (some (.rendering (headRendering settings))), .segment bodyOpening,
        .slot (some (.text pad)), .segment "",
        .slot (some (.rendering (bodyRendering settings body))), .segment "",
        .slot (some (.sequence .patches)), .segment "",
        .slot (settings.endOfBody.map fun node => .rendering (trailingRendering node)),
        .segment bodyClosing] := by
  have compiled : (settings.template.map Template.compile).getD template = template := builtIn
  unfold start
  rw [compiled, template_eq]
  cases trailing : settings.endOfBody <;>
    simp [TemplateStream.start, TemplateStream.assign, Sources.take, get?_sources, Named.get?_erase,
      headSlot, padSlot, bodySlot, patchesSlot, endOfBodySlot, trailing, Source.ofNode, headRendering,
      trailingRendering]

end Document

/-- Assigning sources to slots does not concern contents. -/
theorem TemplateStream.assign_apart (sections : List (String × String)) (sources : Sources)
    (w : EventLoop) : (assign sections sources w).2.2.now = w.now ∧
      (assign sections sources w).2.2.cells = w.cells ∧
      (assign sections sources w).2.2.used = w.used := by
  fun_induction assign sections sources w with
  | case1 => exact ⟨rfl, rfl, rfl⟩
  | case2 =>
    rename_i assigned ih
    rw [assigned] at ih
    exact ih
  | case3 =>
    rename_i assigned ih
    rw [assigned] at ih
    exact ih

namespace Document

/-- Beginning to write out a document does not concern contents, and no time passes. -/
theorem start_apart (settings : Settings) (body : Node) (w : EventLoop) :
    (start settings body w).2.now = w.now ∧ (start settings body w).2.cells = w.cells ∧
      (start settings body w).2.used = w.used := by
  let announced : EventLoop := (w.onBehalfOf (journalName settings.requestId)
    fun w => ((), w.note (.notice (.renderingDocument settings.timeout)))).2
  let assigned := TemplateStream.assign settings.compiled.sections (sources settings body) announced
  have apart : assigned.2.2.now = w.now ∧ assigned.2.2.cells = w.cells ∧ assigned.2.2.used = w.used :=
    TemplateStream.assign_apart _ _ _
  have same : (start settings body w).2 =
      assigned.2.1.entries.foldl (fun w entry => entry.2.release w) assigned.2.2 := rfl
  rw [same]
  obtain left | left := foldl_release (fun w (entry : String × Source) => entry.2.release_eq w)
    assigned.2.1.entries assigned.2.2 <;> rw [left] <;> exact apart

/-- At the beginning, everything in a document is on schedule. -/
theorem start_inCompany {settings : Settings} (builtIn : settings.compiled = template) (body : Node)
    {w : EventLoop} (fresh : w.registry = {}) (numbered : ∀ cell ∈ w.used, cell < w.cells) :
    TemplateStream.InCompany (start settings body w).1.stream.pieces w.now [] []
      (start settings body w).1.stream (start settings body w).2
      ((start settings body w).1.stream.pieces.map (Portion.fresh w.now)) [] := by
  have bodyFirst : settings.compiled.BodyFirst := by
    rw [builtIn, template_eq]
    decide +kernel
  obtain ⟨now, cells, used⟩ := start_apart settings body w
  obtain ⟨-, unfinished, registry⟩ := start_plays bodyFirst body w
  rw [← now]
  refine .begin rfl unfinished ?_ ?_ (registry.trans fresh) (by rwa [cells, used])
  · rw [start_pieces builtIn]
    cases settings.endOfBody <;> rfl
  · intro r member
    rw [Piece.mem_renderings, start_pieces builtIn] at member
    have abreast (built : Built) (env : Environment) :
        Abreast nothingPaired (built.rendering env) (built.rendering env) :=
      built.abreast env _
    have filled : r = headRendering settings ∨ r = bodyRendering settings body ∨
        ∃ node ∈ settings.endOfBody, r = trailingRendering node := by
      cases trailing : settings.endOfBody <;> simpa [trailing] using member
    obtain rfl | rfl | ⟨node, -, rfl⟩ := filled <;> exact abreast _ _

/-! ### What the pieces bring -/

/-- The head of a document, its body and its trailing content settle at these times when each of them is
    rendered on its own from some instant on.  Trailing content that is absent has settled at once. -/
structure Settle (settings : Settings) (body : Node) (since head main trailing : Nat) : Prop where
  headAlone : ∃ text, (headRendering settings).EndsAlone since (.done text) head
  bodyAlone : ∃ text, (bodyRendering settings body).EndsAlone since (.done text) main
  trailingAlone : ∀ node ∈ settings.endOfBody,
    ∃ text, (trailingRendering node).EndsAlone since (.done text) trailing
  absent : settings.endOfBody = none → trailing = 0

/-- These times are determined. -/
theorem Settle.unique {settings : Settings} {body : Node} {since head main trailing head' main'
    trailing' : Nat} (settle : Settle settings body since head main trailing)
    (settle' : Settle settings body since head' main' trailing') :
    head = head' ∧ main = main' ∧ trailing = trailing' := by
  have same {r : Rendering} {time time' : Nat} : (∃ text, r.EndsAlone since (.done text) time) →
      (∃ text, r.EndsAlone since (.done text) time') → time = time' := by
    rintro ⟨text, ends⟩ ⟨text', ends'⟩
    exact (EndsAt.unique (w := .freshAt since) ends ends').2.symm
  refine ⟨same settle.headAlone settle'.headAlone, same settle.bodyAlone settle'.bodyAlone, ?_⟩
  cases content : settings.endOfBody with
  | none => rw [settle.absent content, settle'.absent content]
  | some node => exact same (settle.trailingAlone node content) (settle'.trailingAlone node content)

/-- What the head of a document, its body and its trailing content become. -/
structure Become (settings : Settings) (body : Node) (headText bodyText trailingText : String) :
    Prop where
  ofHead : (headRendering settings).Becomes (.done headText)
  ofBody : (bodyRendering settings body).Becomes (.done bodyText)
  ofTrailing : ∀ node ∈ settings.endOfBody, (trailingRendering node).Becomes (.done trailingText)
  absent : settings.endOfBody = none → trailingText = ""

/-- What the pieces of a document bring, in the built-in template. -/
def shares (head main trailing : Nat) (headText bodyText trailingText : String)
    (out : List (Nat × Chunk)) : List Share :=
  [⟨[(0, .literal headOpening)], 0⟩, ⟨(Chunk.contents headText).map (head, ·), head⟩,
    ⟨[(0, .literal bodyOpening)], 0⟩, ⟨[(0, .content pad)], 0⟩, ⟨[], 0⟩,
    ⟨(Chunk.contents bodyText).map (main, ·), main⟩, ⟨[], 0⟩, .patches out, ⟨[], 0⟩,
    ⟨(Chunk.contents trailingText).map (trailing, ·), trailing⟩, ⟨[(0, .literal bodyClosing)], 0⟩]

/-- What the place of the trailing content brings. -/
theorem brings_trailing {since : Nat} {out : List (Nat × Chunk)} {share : Share} (content : Option Node)
    (brings : (Piece.slot (content.map fun node => .rendering (trailingRendering node))).Brings since out
      share) :
    ∃ trailing text, share = ⟨(Chunk.contents text).map (trailing, ·), trailing⟩ ∧
      (∀ node ∈ content, (∃ alone, (trailingRendering node).EndsAlone since (.done alone) trailing) ∧
        (trailingRendering node).Becomes (.done text)) ∧
      (content = none → trailing = 0 ∧ text = "") := by
  cases content with
  | none =>
    obtain rfl := Piece.brings_absent.1 brings
    exact ⟨0, "", rfl, by simp, fun _ => ⟨rfl, rfl⟩⟩
  | some node =>
    obtain ⟨trailing, text, alone, becomes, rfl⟩ := Piece.brings_rendering.1 brings
    exact ⟨trailing, text, rfl, by simpa using ⟨alone, becomes⟩, by simp⟩

theorem shares_of_brings {settings : Settings} (builtIn : settings.compiled = template) {body : Node}
    {w : EventLoop} {since : Nat} {out : List (Nat × Chunk)} {brought : List Share}
    (brings : List.Forall₂ (Piece.Brings since out) (start settings body w).1.stream.pieces brought) :
    ∃ head main trailing headText bodyText trailingText,
      brought = shares head main trailing headText bodyText trailingText out ∧
      Settle settings body since head main trailing ∧
      Become settings body headText bodyText trailingText := by
  -- The texts between the slots that are not empty, and the pad, are a chunk each.
  have literals : Chunk.literals headOpening = [.literal headOpening] ∧
      Chunk.literals bodyOpening = [.literal bodyOpening] ∧ Chunk.literals "" = [] ∧
      Chunk.contents pad = [.content pad] ∧ Chunk.literals bodyClosing = [.literal bodyClosing] := by
    decide +kernel
  obtain ⟨isHead, isBody, isEmpty, isPad, isEnd⟩ := literals
  rw [start_pieces builtIn] at brings
  simp only [List.forall₂_cons_left_iff, List.forall₂_nil_left_iff, Piece.brings_segment,
    Piece.brings_text, Piece.brings_patches, isHead, isBody, isEmpty, isPad, isEnd,
    existsAndEq, true_and, and_true] at brings
  obtain ⟨_, _, _, ⟨headBrings, bodyBrings, trailingBrings⟩, rfl⟩ := brings
  obtain ⟨head, headText, headAlone, ofHead, rfl⟩ := Piece.brings_rendering.1 headBrings
  obtain ⟨main, bodyText, bodyAlone, ofBody, rfl⟩ := Piece.brings_rendering.1 bodyBrings
  obtain ⟨trailing, trailingText, rfl, ofTrailing, absent⟩ := brings_trailing _ trailingBrings
  exact ⟨head, main, trailing, headText, bodyText, trailingText, rfl,
    ⟨headAlone, bodyAlone, fun node isGiven => (ofTrailing node isGiven).1, fun none => (absent none).1⟩,
    ⟨ofHead, ofBody, fun node isGiven => (ofTrailing node isGiven).2, fun none => (absent none).2⟩⟩

/-! ### Latency -/

/-- What comes at some instant. -/
def arriving (time : Nat) (chunks : List Chunk) : List Arrival := chunks.map (⟨time, ·⟩)

/-- A patch that comes when the fragment of its slot is complete, but not before a given time. -/
structure PatchOf (earliest : Nat) (completion : Nat × Completion) (arrival : Arrival) : Prop where
  time : arrival.time = max earliest completion.1
  chunk : ∃ markup, completion.2.work = .done markup ∧
    arrival.chunk = .patch (Markup.slotName completion.2.slot)
      (Markup.patch (Markup.slotName completion.2.slot) markup)

/-- When the chunks of a document in the built-in template come, and when it ends: head, body and trailing
    content settle at the given times, and the fragments that were taken in are complete when it is
    written down. -/
structure Latency (settings : Settings) (body : Node) (since head main trailing : Nat)
    (given : List (Nat × FragmentTask)) (h : Diary) (arrivals : List Arrival) (ended : Nat) : Prop where
  /-- Every fragment comes to its end when it does if it is alone since it was handed in. -/
  punctual : h.Punctual given
  complete : ∀ fragment ∈ given, fragment.2.slot ∈ h.completions.map (·.2.slot)
  chunks : ∃ headText bodyText trailingText patches,
    Become settings body headText bodyText trailingText ∧
    arrivals =
      arriving since [.literal headOpening] ++
      arriving head (Chunk.contents headText ++ [.literal bodyOpening, .content pad]) ++
      arriving (max head main) (Chunk.contents bodyText) ++
      patches ++
      arriving ended (Chunk.contents trailingText ++ [.literal bodyClosing]) ∧
    List.Forall₂ (PatchOf (max head main)) h.completions patches
  ended : ended = max (max (max head main) trailing) (Share.latest h.completions)

section

variable {since head main trailing : Nat} {headText bodyText trailingText : String}
  {out : List (Nat × Chunk)}

/-- When everything in a document is complete. -/
theorem closing_shares (early : since ≤ head) :
    Share.closing since (shares head main trailing headText bodyText trailingText out) =
      max (max (max head main) trailing) (Share.latest out) := by
  simp only [shares, Share.closing, Share.patches]
  omega

/-- When the chunks of a document come. -/
theorem timetable_shares (early : since ≤ head) :
    (Share.timetable since (shares head main trailing headText bodyText trailingText out)).map
        (fun entry => (⟨entry.1, entry.2⟩ : Arrival)) =
      arriving since [.literal headOpening] ++
      arriving head (Chunk.contents headText ++ [.literal bodyOpening, .content pad]) ++
      arriving (max head main) (Chunk.contents bodyText) ++
      out.map (fun entry => ⟨max (max head main) entry.1, entry.2⟩) ++
      arriving (max (max (max head main) trailing) (Share.latest out))
        (Chunk.contents trailingText ++ [.literal bodyClosing]) := by
  have atHead : max since head = head := Nat.max_eq_right early
  have atEnd : max (Share.latest out) trailing = max trailing (Share.latest out) := Nat.max_comm _ _
  simp [shares, Share.timetable, Share.patches, Share.after, arriving, atHead, atEnd,
    Function.comp_def]

end

/-- The patches that are handed out belong to the fragments that are complete. -/
theorem patchesOf {given : List (Nat × FragmentTask)} {h : Diary} (punctual : h.Punctual given)
    {out : List (Nat × Chunk)} (ends : h.ends = out.map (Prod.map id .ok)) (earliest : Nat) :
    List.Forall₂ (PatchOf earliest) h.completions
      (out.map fun entry => ⟨max earliest entry.1, entry.2⟩) := by
  have same : List.Forall₂ (· = ·) h.ends (out.map (Prod.map id .ok)) := by
    rwa [List.forall₂_eq_eq_eq]
  rw [Diary.ends, List.forall₂_map_left_iff, List.forall₂_map_right_iff] at same
  rw [List.forall₂_map_right_iff]
  refine ((List.forall₂_and_left _ _).2 ⟨punctual, same⟩).imp ?_
  rintro ⟨time, slot, work, item⟩ ⟨time', chunk⟩ ⟨⟨isItem, -⟩, same⟩
  obtain ⟨rfl, rfl⟩ := Prod.mk.inj same
  refine ⟨rfl, ?_⟩
  cases work with
  | done markup => exact ⟨markup, rfl, by simpa [Registry.item?] using isItem.symm⟩
  | _ => simp [Registry.item?] at isItem

/-- A document in the built-in template that is read to its end without pauses, and without an error, is
    as fast as the slowest of its parts. -/
theorem latency {settings : Settings} (builtIn : settings.compiled = template) (body : Node)
    {w₀ after : EventLoop} (fresh : w₀.registry = {}) (numbered : ∀ cell ∈ w₀.used, cell < w₀.cells)
    {turns patience most : Nat} {arrivals : List Arrival}
    (read : toChunkStream.readWithin turns patience most {} (start settings body w₀).1
      (start settings body w₀).2 = (.ok (arrivals, .done), after)) :
    ∃ given h last head main trailing,
      Watches (start settings body w₀).1 (start settings body w₀).2 given h last after ∧
      Settle settings body w₀.now head main trailing ∧
      Latency settings body w₀.now head main trailing given h arrivals after.now := by
  obtain ⟨given, h, last, watches, finished, yields⟩ :=
    watches_of_readWithin .start turns patience most read
  have yields : h.yields = arrivals.map fun arrival => (arrival.time, .ok arrival.chunk) := yields
  have clean : ∀ entry ∈ h.yields, ∀ error, entry.2 ≠ .error error := by
    rw [yields]
    exact List.forall_mem_map.2 fun _ _ _ => by simp
  obtain ⟨brought, out, brings, ends, chunks, ended, punctual, complete⟩ :=
    watches.timetable (start_inCompany builtIn body fresh numbered) clean finished
  obtain ⟨head, main, trailing, headText, bodyText, trailingText, rfl, settle, become⟩ :=
    shares_of_brings builtIn brings
  have early : w₀.now ≤ head := by
    obtain ⟨text, alone⟩ := settle.headAlone
    exact EndsAt.now_le (w := .freshAt w₀.now) alone
  have latest : Share.latest h.completions = Share.latest out := by
    rw [← Share.latest_map (·.item) h.completions, ← Share.latest_map Except.ok out]
    exact congrArg _ ends
  have ended := ended.trans (closing_shares early)
  refine ⟨given, h, last, head, main, trailing, watches, settle, punctual, complete, ?_,
    latest ▸ ended⟩
  refine ⟨headText, bodyText, trailingText, _, become, ?_, patchesOf punctual ends _⟩
  -- What arrives is determined by its times and chunks.
  have inOrder : arrivals = (Share.timetable w₀.now
      (shares head main trailing headText bodyText trailingText out)).map
        fun entry => (⟨entry.1, entry.2⟩ : Arrival) := by
    have injective : Function.Injective fun arrival : Arrival =>
        (arrival.time, (.ok arrival.chunk : Item)) := by
      rintro ⟨time, chunk⟩ ⟨time', chunk'⟩ same
      simpa using same
    refine List.map_injective_iff.2 injective ?_
    rw [← yields, chunks, List.map_map]
    rfl
  rw [inOrder, timetable_shares early, ended]

/-- A fragment is late whose value takes twenty milliseconds.  The body is complete with its placeholder
    after ten, and the document is when the fragment is. -/
theorem latency_one_late :
    let settings : Settings := { timeout := 10, requestId := "r" }
    let body : Node := .defer { pace := .ofDelays "a" [20] false, result := .ok "late" }
      (fun text => .node (.text text)) (.node (.text "wait")) none
    ∃ given h head main trailing arrivals, Settle settings body 0 head main trailing ∧
      Latency settings body 0 head main trailing given h arrivals 20 ∧
      arrivals.map (·.time) = [0, 0, 0, 0, 10, 20, 20] := by
  intro settings body
  let read := toChunkStream.read 2 9 {} (start settings body {}).1 (start settings body {}).2
  -- Head and pad are there at once, and the patch when the fragment is, with the end.
  have seen : (toChunkStream.readChunks? 2 9 {} (start settings body {}).1
        (start settings body {}).2).isSome ∧
      read.1.toOption.map (fun got => got.1.map (·.time)) = some [0, 0, 0, 0, 10, 20, 20] ∧
      read.2.now = 20 := by
    decide +kernel
  obtain ⟨isRead, times, now⟩ := seen
  obtain ⟨chunks, isRead⟩ := Option.isSome_iff_exists.1 isRead
  obtain ⟨arrivals, got, -⟩ := ChunkStream.readChunks?_eq_some.1 isRead
  have got : read.1 = .ok (arrivals, .done) := got
  have whole : toChunkStream.readWithin 2 EventLoop.patience 9 {} (start settings body {}).1
      (start settings body {}).2 = (.ok (arrivals, .done), read.2) := Prod.ext got rfl
  rw [got] at times
  obtain ⟨given, h, -, head, main, trailing, -, settle, timely⟩ :=
    latency rfl body rfl (by simp) whole
  exact ⟨given, h, head, main, trailing, arrivals, settle, now ▸ timely, Option.some.inj times⟩

end Document

end ProgressiveHtml
