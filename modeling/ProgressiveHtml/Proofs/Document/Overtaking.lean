import ProgressiveHtml.Proofs.Document.Assignment
import ProgressiveHtml.Proofs.Node.Placeholders
import ProgressiveHtml.Proofs.Reader.Run
import ProgressiveHtml.Proofs.Rendering.Ledger

namespace ProgressiveHtml

/-!
# Documents — when a patch finds its placeholder

The placeholder of a late fragment stands in the chunk of its host: the body, or the patch of the
late fragment in whose content it stands.  The body comes before all patches.  But patches come in
the order of completion, and nothing makes a host complete before the fragments it has handed in: a
patch can overtake its placeholder.

* `Layout.body_before_patches` — the body comes before all patches;
* `Document.InTime` — all patches find their placeholders;
* `Document.placeholder_iff` — the patches that find their placeholders;
* `Document.overtakes` — a document in which a patch overtakes its placeholder.
-/

/-! ### The body and the patches -/

namespace Role

variable {r : Rendering} {drained : List Chunk} {roles : List Role} {outs : List (List Chunk)}

/-- Only the place of the patches brings patches. -/
theorem noPatch_of_wrote (wrote : List.Forall₂ (Role.Wrote r drained) roles outs)
    (elsewhere : .patches ∉ roles) : ∀ chunk ∈ outs.flatten, chunk.slot? = none := by
  have noPatch {out : List Chunk} (none : out.filter (·.slot?.isSome) = []) :
      ∀ chunk ∈ out, chunk.slot? = Option.none := by
    simpa [List.filter_eq_nil_iff] using none
  induction wrote with
  | nil => simp
  | @cons role out roles outs here _ ih =>
    rw [List.mem_cons, not_or] at elsewhere
    intro chunk member
    obtain member | later := List.mem_append.1 (List.flatten_cons ▸ member)
    · cases role with
      | segment text =>
        obtain rfl := here
        exact noPatch (Chunk.literals_noPatch text) chunk member
      | plain =>
        obtain ⟨text, rfl⟩ := here
        exact noPatch (Chunk.contents_noPatch text) chunk member
      | body =>
        obtain ⟨text, -, rfl⟩ := here
        exact noPatch (Chunk.contents_noPatch text) chunk member
      | patches => exact absurd rfl elsewhere.1
    · exact ih elsewhere.2 chunk later

/-- Where the body has its place its text has been written. -/
theorem body_of_wrote (wrote : List.Forall₂ (Role.Wrote r drained) roles outs)
    (here : .body ∈ roles) :
    ∃ text, r = .done text ∧ ∀ chunk ∈ Chunk.contents text, chunk ∈ outs.flatten := by
  obtain ⟨out, isOut, text, isDone, rfl⟩ := forall₂_mem_left wrote here
  exact ⟨text, isDone, fun chunk member => List.mem_flatten.2 ⟨_, isOut, member⟩⟩

end Role

/-- Once there are patches the body is complete, and its chunk has come before all of them. -/
theorem Layout.body_before_patches {first r : Rendering} {passed todo : List Role}
    {outs : List (List Chunk)} {h : List Happening} {pieces : List Piece} {w : EventLoop}
    (layout : Layout first passed todo outs r h pieces w) (some : History.patches h ≠ []) :
    ∃ before text after, r = .done text ∧
      History.chunks h = before ++ (History.patches h ++ after) ∧
      (∀ chunk ∈ before ++ after, chunk.slot? = none) ∧
      ∀ chunk ∈ Chunk.contents text, chunk ∈ before := by
  have notAhead : Role.patches ∉ todo.tail := fun ahead => some (layout.ahead ahead)
  by_cases here : Role.patches ∈ todo
  · -- The patches are coming: all parts passed are before them.
    obtain ⟨role, rest, rfl⟩ := List.exists_cons_of_ne_nil (List.ne_nil_of_mem here)
    obtain rfl : Role.patches = role := (List.mem_cons.1 here).resolve_right notAhead
    obtain ⟨notPassed, -, bodyNotAhead⟩ := layout.orderly.patches_once
    have passedBody : Role.body ∈ passed := by
      obtain passed | ahead := List.mem_append.1 layout.orderly.body
      · exact passed
      · exact absurd ((List.mem_cons.1 ahead).resolve_left (by simp)) bodyNotAhead
    obtain ⟨text, isDone, written⟩ := Role.body_of_wrote layout.wrote passedBody
    refine ⟨outs.flatten, text, [], isDone, by simp [layout.chunks], ?_, written⟩
    simpa using Role.noPatch_of_wrote layout.wrote notPassed
  · -- The place of the patches has been passed.
    have passedPatches := (List.mem_append.1 layout.orderly.patches).resolve_right here
    obtain ⟨front, back, rfl⟩ := List.append_of_mem passedPatches
    have orderly := layout.orderly
    rw [List.append_assoc, List.cons_append] at orderly
    obtain ⟨notFront, notBack, bodyNotBack⟩ := orderly.patches_once
    have frontBody : Role.body ∈ front := by
      obtain front | back := List.mem_append.1 orderly.body
      · exact front
      · exact absurd ((List.mem_cons.1 back).resolve_left (by simp)) bodyNotBack
    obtain ⟨before, out, after, rfl, wroteFront, wrote, wroteBack⟩ :=
      forall₂_middle layout.wrote.flip
    obtain rfl : out = History.patches h := wrote
    obtain ⟨text, isDone, written⟩ := Role.body_of_wrote wroteFront.flip frontBody
    refine ⟨before.flatten, text, after.flatten, isDone, ?_, ?_, written⟩
    · simp [layout.chunks, here]
    · intro chunk member
      obtain member | member := List.mem_append.1 member
      · exact Role.noPatch_of_wrote wroteFront.flip notFront chunk member
      · exact Role.noPatch_of_wrote wroteBack.flip
          (fun twice => notBack (List.mem_append_left _ twice)) chunk member

/-! ### Patches and placeholders -/

/-- A list is cut apart in its middle part at a member that stands nowhere else. -/
theorem append_cons_eq_middle {α : Type} {before middle after earlier later : List α} {a : α}
    (same : before ++ (middle ++ after) = earlier ++ a :: later) (notBefore : a ∉ before)
    (notAfter : a ∉ after) :
    ∃ front back, earlier = before ++ front ∧ middle = front ++ a :: back := by
  obtain ⟨front, rfl, inside⟩ | ⟨back, rfl, outside⟩ := List.append_eq_append_iff.1 same
  · obtain ⟨tail, rfl, rfl⟩ | ⟨tail, rfl, there⟩ := List.append_eq_append_iff.1 inside
    · simp at notAfter
    · obtain ⟨rfl, rfl⟩ | ⟨back, rfl, -⟩ := List.cons_eq_append_iff.1 there
      · simp at notAfter
      · exact ⟨front, back, rfl, rfl⟩
  · obtain ⟨rfl, there⟩ | ⟨tail, rfl, -⟩ := List.cons_eq_append_iff.1 outside
    · obtain ⟨rfl, rfl⟩ | ⟨back, rfl, -⟩ := List.append_eq_cons_iff.1 there
      · simp at notAfter
      · exact ⟨[], back, by simp, rfl⟩
    · simp at notBefore

/-- What comes first in a list without repetitions is what stands in front. -/
theorem idxOf_lt_idxOf_iff {α : Type} [DecidableEq α] {front back : List α} {a b : α}
    (nodup : (front ++ a :: back).Nodup) :
    (front ++ a :: back).idxOf b < (front ++ a :: back).idxOf a ↔ b ∈ front := by
  have here : (front ++ a :: back).idxOf a = front.length := by
    have absent : a ∉ front := fun twice =>
      (List.nodup_append.1 nodup).2.2 a twice a List.mem_cons_self rfl
    rw [List.idxOf_append_of_notMem absent, List.idxOf_cons_self, Nat.add_zero]
  rw [here]
  by_cases inFront : b ∈ front
  · simpa [List.idxOf_append_of_mem inFront, inFront] using List.idxOf_lt_length_of_mem inFront
  · simp [List.idxOf_append_of_notMem inFront, inFront]

/-- The slots of the late fragments that are complete, in the order of completion. -/
def History.completed (h : List Happening) : List Nat := (completions h).map (·.slot)

namespace Ledger

variable {body : Node} {env : Environment} {entries : List Entry} {h : List Happening}
  {r : Rendering} {w : EventLoop} {text : String} {entry : Entry}

/-- What the body has handed in is placed in its text. -/
theorem placed_in_body (ledger : Ledger (body.Shows env) entries h (.done text) w)
    (member : entry ∈ entries) (ofBody : entry.host = none) : entry.cut.PlacedIn text := by
  obtain ⟨host, cut⟩ := entry
  obtain rfl : host = none := ofBody
  exact Node.Shows.placed body ledger.shows_body (mem_handedIn.2 member)

/-- What a late fragment has handed in is placed in its text. -/
theorem placed_in_host {promise : Outcome → Prop} (ledger : Ledger promise entries h r w)
    (member : entry ∈ entries) {c : Completion} (complete : c ∈ History.completions h)
    (isDone : c.work = .done text) (ofHost : entry.host = some c.slot) :
    entry.cut.PlacedIn text := by
  have earlier := ledger.agrees.earlier entry member c.slot ofHost
  obtain ⟨host, isHost, same⟩ :=
    ledger.agrees.exists_entry (earlier.trans (ledger.agrees.slot_lt member))
  have shows := ledger.shows_complete complete isDone isHost same.symm
  obtain ⟨_, cut⟩ := entry
  obtain rfl := ofHost
  exact shows.placed (mem_handedIn.2 (same ▸ member))

end Ledger

/-- What has come before a patch: the body, and the patches of the fragments that were complete before
    the fragment of the patch. -/
theorem Layout.before_patch {first r : Rendering} {passed todo : List Role}
    {outs : List (List Chunk)} {h : List Happening} {pieces : List Piece} {w : EventLoop}
    (layout : Layout first passed todo outs r h pieces w) {earlier later : List Chunk}
    {slot markup : String} (split : History.chunks h = earlier ++ .patch slot markup :: later) :
    ∃ (text : String) (before : List Chunk) (sooner : List Completion) (c : Completion)
      (texts : Nat → String), r = .done text ∧ slot = Markup.slotName c.slot ∧
      earlier = before ++ sooner.map (fun c =>
        .patch (Markup.slotName c.slot) (Markup.patch (Markup.slotName c.slot) (texts c.slot))) ∧
      (∀ chunk ∈ before, chunk.slot? = none) ∧ (∀ chunk ∈ Chunk.contents text, chunk ∈ before) ∧
      (∀ c ∈ sooner, c.work = .done (texts c.slot)) ∧
      sooner ++ [c] <+: History.completions (History.ofRegistry h) := by
  have isPatch : Chunk.patch slot markup ∈ History.patches h := by
    simp [History.patches, split, Chunk.slot?]
  obtain ⟨before, text, after, isDone, chunks, noPatch, written⟩ :=
    layout.body_before_patches (List.ne_nil_of_mem isPatch)
  have elsewhere (member : .patch slot markup ∈ before ++ after) : False := by
    simpa [Chunk.slot?] using noPatch _ member
  obtain ⟨front, back, rfl, patches⟩ := append_cons_eq_middle (chunks.symm.trans split)
    (fun member => elsewhere (List.mem_append_left _ member))
    (fun member => elsewhere (List.mem_append_right _ member))
  -- The patches that have come are made of the fragments that were complete first.
  have handedOut := layout.course.reached.accounts.handedOut
  rw [History.yields_ofRegistry] at handedOut
  obtain ⟨shown, complete, same⟩ := List.prefix_map_iff.1 handedOut
  obtain ⟨texts, ends, made⟩ := layout.course.reached.patches_of_handedOut complete same.symm
  rw [patches] at made
  obtain ⟨sooner, others, rfl, rfl, onward⟩ := List.map_eq_append_iff.1 made.symm
  obtain ⟨c, rest, rfl, isPatch, -⟩ := List.map_eq_cons_iff.1 onward
  obtain ⟨rfl, -⟩ := Chunk.patch.inj isPatch
  refine ⟨text, before, sooner, c, texts, isDone, rfl, rfl, ?_, written, ?_, ?_⟩
  · exact fun chunk member => noPatch chunk (List.mem_append_left _ member)
  · exact fun c isSooner => ends c (List.mem_append_left _ isSooner)
  · refine List.IsPrefix.trans ?_ complete
    exact ⟨rest, by simp⟩

namespace Document

/-- Whether every patch finds its placeholder in a chunk that has come before it. -/
def InTime (h : List Happening) : Prop :=
  ∀ earlier slot markup later, History.chunks h = earlier ++ .patch slot markup :: later →
    ∃ chunk ∈ earlier, ∃ fallback,
      Markup.Contains chunk.text (Markup.placeholder slot fallback)

/-- The chunk of its host, with its placeholder, has come before a patch exactly if the host is the
    body or was complete before the fragment of the patch. -/
theorem placeholder_iff {settings : Settings} (bodyFirst : settings.compiled.BodyFirst) {body : Node}
    (regular : body.Regular) {w₀ : EventLoop} (fresh : w₀.registry = {}) {h : List Happening}
    {d : Document} {w : EventLoop}
    (run : toChunkStream.Run (start settings body w₀).1 (start settings body w₀).2 h d w)
    (clean : ∀ error, .error error ∉ History.yields h) {earlier later : List Chunk}
    {slot markup : String} (split : History.chunks h = earlier ++ .patch slot markup :: later) :
    ∃ n host, slot = Markup.slotName n ∧ (n, host) ∈ History.hosts h ∧
      ((∃ chunk ∈ earlier, chunk.slot? = host.map Markup.slotName ∧ ∃ fallback,
          Markup.Contains chunk.text (Markup.placeholder slot fallback)) ↔
        ∀ m, host = some m → (History.completed h).idxOf m < (History.completed h).idxOf n) := by
  obtain ⟨⟨passed, todo, outs, r, -, layout⟩, -⟩ := layout_of_run bodyFirst body fresh run clean
  obtain ⟨text, before, sooner, c, texts, rfl, rfl, rfl, noPatch, written, ends, complete⟩ :=
    layout.before_patch split
  have accounts := layout.course.reached.accounts
  have sooner_iff (m : Nat) :
      (History.completed h).idxOf m < (History.completed h).idxOf c.slot ↔
        m ∈ sooner.map (·.slot) := by
    have once := accounts.once
    obtain ⟨rest, same⟩ := complete
    rw [History.completed, ← History.completions_ofRegistry]
    rw [← same, List.append_assoc, List.map_append, List.map_append, List.map_singleton,
      List.singleton_append] at once ⊢
    exact idxOf_lt_idxOf_iff once
  -- The ledger tells the host, and that hosts keep their promises.
  have promised : (bodyRendering settings body).Ensures
      (body.Shows (Environment.empty.deferringAfter settings.timeout)) :=
    fun first => body.ensures_rendering regular _ first
  obtain ⟨entries, ledger⟩ := layout.course.ledger promised
  have given : c.slot < w.registry.next := by
    have isComplete := complete.subset (List.mem_append_right _ List.mem_cons_self)
    have known := (History.accepted_sublist _).subset
      (accounts.known (List.mem_map_of_mem isComplete))
    rw [accounts.slots] at known
    exact List.mem_range.1 known
  obtain ⟨entry, member, isEntry⟩ := ledger.agrees.exists_entry given
  refine ⟨c.slot, entry.host, rfl, ?_, ?_, ?_⟩
  · rw [← History.hosts_ofRegistry, ledger.agrees.written, ← isEntry]
    exact List.mem_map_of_mem member
  · rintro ⟨chunk, isEarlier, ofHost, -⟩ m isHost
    rw [sooner_iff]
    rw [isHost] at ofHost
    obtain inBefore | isPatch := List.mem_append.1 isEarlier
    · rw [noPatch chunk inBefore] at ofHost
      cases ofHost
    · obtain ⟨other, isSooner, rfl⟩ := List.mem_map.1 isPatch
      exact List.mem_map.2 ⟨other, isSooner, Markup.slotName_injective (Option.some.inj ofHost)⟩
  · intro inTime
    cases isHost : entry.host with
    | none =>
      obtain ⟨fallback, here⟩ := ledger.placed_in_body member isHost
      have isContent : Chunk.contents text = [.content text] := by
        rw [Chunk.contents, here.isEmpty_eq_false, if_neg Bool.false_ne_true]
      have inBefore := written (.content text) (isContent ▸ List.mem_cons_self)
      exact ⟨_, List.mem_append_left _ inBefore, rfl, fallback, isEntry ▸ here⟩
    | some m =>
      obtain ⟨other, isSooner, rfl⟩ := List.mem_map.1 ((sooner_iff m).1 (inTime m isHost))
      have isComplete := complete.subset (List.mem_append_left _ isSooner)
      obtain ⟨fallback, here⟩ :=
        ledger.placed_in_host member isComplete (ends other isSooner) isHost
      exact ⟨_, List.mem_append_right _ (List.mem_map_of_mem isSooner), rfl, fallback,
        isEntry ▸ here.patch _⟩

/-- A document with a late fragment that still waits for something when the fragment that it has
    handed in is complete: the patch of the inner one is the first. -/
theorem exists_overtaking : ∃ (settings : Settings) (body : Node) (h : List Happening)
    (earlier later : List Chunk) (markup : String),
    settings.template = none ∧ body.Regular ∧
      toChunkStream.ReadOut (start settings body {}).1 (start settings body {}).2 h ∧
      (∀ error, .error error ∉ History.yields h) ∧
      History.chunks h = earlier ++ .patch "slot-1" markup :: later ∧
      ∀ chunk ∈ earlier, ∀ fallback,
        ¬Markup.Contains chunk.text (Markup.placeholder "slot-1" fallback) := by
  let settings : Settings := { timeout := 10, requestId := "r" }
  let inner : Node := .defer { pace := .ofDelays "inner" [30] false, result := .ok "inner" }
    (fun text => .node (.text text)) (.node (.text "wait")) none
  let slow : Node := .await { pace := .ofDelays "slow" [100] false, result := () }
    (.node (.text "done"))
  let body : Node := .defer { pace := .ofDelays "outer" [20] false, result := .ok "outer" }
    (fun _ => .node (.group [inner, slow])) (.node (.text "loading")) none
  let opened : String :=
    "<div style=\"display: contents\" " ++ Markup.slotAttribute ++ "=\"" ++ "slot-1" ++ "\">"
  -- The sixth chunk is the patch of the inner fragment, and its placeholder is in none of the first five.
  have read : (toChunkStream.readChunks? 3 9 {} (start settings body {}).1
      (start settings body {}).2).map (fun chunks =>
        (chunks[5]?.bind Chunk.slot?, (chunks.take 5).all fun chunk =>
          !decide (Markup.bytes opened <:+: Markup.bytes chunk.text))) =
      some (some "slot-1", true) := by
    decide +kernel
  obtain ⟨chunks, read, same⟩ := Option.map_eq_some_iff.1 read
  obtain ⟨isPatch, nowhere⟩ := Prod.mk.inj same
  obtain ⟨h, readOut, rfl, clean⟩ := ChunkStream.readOut_of_readChunks? read
  obtain ⟨chunk, found, isPatch⟩ := Option.bind_eq_some_iff.1 isPatch
  obtain ⟨inside, isChunk⟩ := List.getElem?_eq_some_iff.1 found
  cases chunk with
  | literal | content => cases isPatch
  | patch slot markup =>
    obtain rfl := Option.some.inj isPatch
    refine ⟨settings, body, h, (History.chunks h).take 5, (History.chunks h).drop 6, markup, rfl, ?_,
      readOut, clean, ?_, fun chunk isEarlier fallback here => ?_⟩
    · simp [body, inner, slow, Node.Regular, Node.RegularAll, Built.Regular]
    · rw [← isChunk, ← List.drop_eq_getElem_cons inside, List.take_append_drop]
    · have isOpened : Markup.Contains (Markup.placeholder "slot-1" fallback) opened :=
        ((Markup.Contains.refl opened).append_right _).append_right _
      have absent := List.all_eq_true.1 nowhere chunk isEarlier
      simp only [Bool.not_eq_true', decide_eq_false_iff_not] at absent
      exact absent (here.trans isOpened).bytes

/-- A patch can overtake its placeholder. -/
theorem overtakes : ∃ (settings : Settings) (body : Node) (h : List Happening),
    settings.template = none ∧ body.Regular ∧
      toChunkStream.ReadOut (start settings body {}).1 (start settings body {}).2 h ∧
      (∀ error, .error error ∉ History.yields h) ∧ ¬InTime h := by
  obtain ⟨settings, body, h, earlier, later, markup, builtIn, regular, readOut, clean, split,
    nowhere⟩ := exists_overtaking
  refine ⟨settings, body, h, builtIn, regular, readOut, clean, fun inTime => ?_⟩
  obtain ⟨chunk, isEarlier, fallback, here⟩ := inTime _ _ _ _ split
  exact nowhere chunk isEarlier fallback here

/-- The host of a patch that has overtaken its placeholder was not complete before. -/
theorem host_of_overtaking : ∃ (h : List Happening) (n m : Nat), Markup.slotName n = "slot-1" ∧
    (n, some m) ∈ History.hosts h ∧
      ¬(History.completed h).idxOf m < (History.completed h).idxOf n := by
  obtain ⟨settings, body, h, earlier, later, markup, builtIn, regular, readOut, clean, split,
    nowhere⟩ := exists_overtaking
  have bodyFirst : settings.compiled.BodyFirst := by
    rw [Settings.compiled, builtIn]
    decide +kernel
  obtain ⟨run, asked⟩ := readOut
  rename_i h d last w w'
  have clean : ∀ error, .error error ∉ History.yields h := by
    simpa [EventLoop.handedInSince] using clean
  have split : History.chunks h = earlier ++ .patch "slot-1" markup :: later := by
    simpa [History.chunks, EventLoop.handedInSince] using split
  obtain ⟨n, host, same, handed, inTime⟩ := placeholder_iff bodyFirst regular rfl run clean split
  have late : ¬∀ m, host = some m →
      (History.completed h).idxOf m < (History.completed h).idxOf n := by
    rw [← inTime]
    rintro ⟨chunk, isEarlier, -, fallback, here⟩
    exact nowhere chunk isEarlier fallback here
  obtain ⟨m, ofHost⟩ := not_forall.1 late
  obtain ⟨rfl, notEarlier⟩ := Classical.not_imp.1 ofHost
  exact ⟨h, n, m, same.symm, handed, notEarlier⟩

end Document

end ProgressiveHtml
