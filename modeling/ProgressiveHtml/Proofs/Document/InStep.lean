import ProgressiveHtml.Proofs.EventLoop.InStep
import ProgressiveHtml.Proofs.Node.Differing

namespace ProgressiveHtml

/-!
# Documents — two documents in step

Two documents whose bodies differ only in what the values of late fragments come to begin in step, and
stay so when both are asked for a chunk: both give one, or both give none, and only the patches of
these fragments differ.

* `Source.Twin`, `Piece.Twin`, `Document.Twin` — documents that differ in this way;
* `Polled.Related` — answers that agree;
* `Document.Twin.poll` — asking for a chunk;
* `Document.twin_start` — the beginning.
-/

open Rendering

/-- Two sources of slots differ only in what the values of late fragments come to. -/
inductive Source.Twin (F : String → Prop) : Source → Source → Prop
  | text (text : String) : Twin F (.text text) (.text text)
  | rendering {r r' : Rendering} (twins : r.Twin F r') : Twin F (.rendering r) (.rendering r')
  | patches : Twin F (.sequence .patches) (.sequence .patches)

/-- Two pieces differ only in what the values of late fragments come to. -/
inductive Piece.Twin (F : String → Prop) : Piece → Piece → Prop
  | segment (text : String) : Twin F (.segment text) (.segment text)
  | absent : Twin F (.slot none) (.slot none)
  | slot {source source' : Source} (twins : source.Twin F source') :
      Twin F (.slot (some source)) (.slot (some source'))

/-- Two streams stand at the same place and differ only in what the values of late fragments come to. -/
structure TemplateStream.Twin (F : String → Prop) (s s' : TemplateStream) : Prop where
  position : s.position = s'.position
  pieces : List.Forall₂ (Piece.Twin F) s.pieces s'.pieces
  finished : s.finished = s'.finished

/-- Two documents stand at the same place and differ only in what the values of late fragments come
    to. -/
structure Document.Twin (F : String → Prop) (d d' : Document) : Prop where
  stream : d.stream.Twin F d'.stream
  requestId : d.requestId = d'.requestId
  chunks : d.chunks = d'.chunks

/-- Two answers agree: both are there, or both are not, and neither is a panic. -/
inductive Polled.Related {σ α : Type} (R : σ → σ → Prop) (Q : α → α → Prop) :
    Polled σ α → Polled σ α → Prop
  | ready {answer answer' : α} {next next' : σ} (answers : Q answer answer') (left : R next next') :
      Related R Q (.ready answer next) (.ready answer' next')
  | pending {next next' : σ} (left : R next next') : Related R Q (.pending next) (.pending next')

/-- Both streams have ended, or both bring chunks that are the same but for the patches of the slots
    `own`. -/
abbrev Item.SameButAt (own : Nat → Prop) : Option Item → Option Item → Prop :=
  Option.Rel (Item.SameBut own)

namespace TemplateStream

variable {F : String → Prop} {all : List (Rendering × EventLoop)}

/-! ### Asking for a chunk -/

/-- The renderings of both streams go on. -/
theorem drives_twins (missing : Missing F all) {pieces pieces' : List Piece}
    (twins : List.Forall₂ (Piece.Twin F) pieces pieces') (settled settled' : Bool)
    {w v : EventLoop} (inStep : w.InStep F (OwnSlot F all) v)
    (inAll : askedOfAll false settled (Piece.renderings pieces) w ⊆ all)
    (calm : Unfailing (askedOfAll false settled (Piece.renderings pieces) w))
    (calm' : Unfailing (askedOfAll false settled' (Piece.renderings pieces') v)) :
    ∃ left left' w' v', Drives pieces w left w' ∧ Drives pieces' v left' v' ∧
      List.Forall₂ (Piece.Twin F) left left' ∧ w'.InStep F (OwnSlot F all) v' ∧
      ∀ r ∈ Piece.renderings left, r.fails = false := by
  induction twins generalizing settled settled' w v with
  | nil => exact ⟨[], [], w, v, .nil w, .nil v, .nil, inStep, by simp [Piece.renderings]⟩
  | @cons piece piece' rest rest' first others ih =>
    -- Pieces that no rendering fills stay as they are.
    have other (unfilled : piece.rendering? = none) (unfilled' : piece'.rendering? = none) :
        ∃ left left' w' v', Drives (piece :: rest) w left w' ∧ Drives (piece' :: rest') v left' v' ∧
          List.Forall₂ (Piece.Twin F) left left' ∧ w'.InStep F (OwnSlot F all) v' ∧
          ∀ r ∈ Piece.renderings left, r.fails = false := by
      have others := Piece.renderings_cons_of_none unfilled
      rw [others] at inAll calm
      rw [Piece.renderings_cons_of_none unfilled'] at calm'
      obtain ⟨left, left', w', v', drives, drives', kept, inStep, sound⟩ :=
        ih settled settled' inStep inAll calm calm'
      exact ⟨_, _, w', v', .other unfilled drives, .other unfilled' drives', .cons first kept, inStep,
        others left ▸ sound⟩
    cases first with
    | segment | absent => exact other rfl rfl
    | slot source =>
      cases source with
      | text | patches => exact other rfl rfl
      | @rendering r r' twins =>
        rw [Piece.renderings_cons_rendering] at inAll calm calm'
        have soundHere := calm.head.sound
        have soundThere := calm'.head.sound
        obtain ⟨settledNext, -, asks⟩ := pollAll_cons_of_unfailing calm
        obtain ⟨settledNext', -, asks'⟩ := pollAll_cons_of_unfailing calm'
        rw [asks, Unfailing.unfailing_append] at calm
        rw [asks', Unfailing.unfailing_append] at calm'
        rw [asks] at inAll
        obtain ⟨inFirst, inRest⟩ := List.append_subset.1 inAll
        obtain ⟨kept, inStep⟩ := twins.poll missing inStep inFirst
        obtain ⟨left, left', w', v', drives, drives', others, inStep, sound⟩ :=
          ih settledNext settledNext' inStep inRest calm.2 calm'.2
        refine ⟨_, _, w', v', .rendering (not_panicked soundHere) drives,
          .rendering (not_panicked soundThere) drives', .cons (.slot (.rendering kept)) others, inStep, ?_⟩
        rw [Piece.renderings_cons_rendering]
        exact List.forall_mem_cons.2 ⟨soundHere, sound⟩

/-- Both streams walk over their pieces. -/
theorem walk_twins {own : Nat → Prop} {pieces pieces' : List Piece}
    (twins : List.Forall₂ (Piece.Twin F) pieces pieces')
    (sound : ∀ r ∈ Piece.renderings pieces, r.fails = false) (position : Nat) {w v : EventLoop}
    (inStep : w.InStep F own v) :
    Polled.Related (TemplateStream.Twin F) (Item.SameButAt own) (walk pieces position w).1
        (walk pieces' position v).1 ∧
      (walk pieces position w).2.InStep F own (walk pieces' position v).2 := by
  induction twins generalizing position w v with
  | nil => exact ⟨.ready .none ⟨rfl, .nil, rfl⟩, inStep⟩
  | @cons piece piece' rest rest' first others ih =>
    have behind : ∀ r ∈ Piece.renderings rest, r.fails = false := fun r member =>
      sound r (Piece.mem_renderings_cons member)
    have bring (chunk : Chunk) (position : Nat) : Polled.Related (TemplateStream.Twin F)
        (Item.SameButAt own) (.ready (some (.ok chunk)) { position, pieces := rest })
        (.ready (some (.ok chunk)) { position, pieces := rest' }) :=
      .ready (.some (.ok (.inl rfl))) ⟨rfl, others, rfl⟩
    cases first with
    | segment text =>
      rw [walk, walk]
      split
      · exact ih behind position inStep
      · exact ⟨bring _ _, inStep⟩
    | absent => exact ih behind (position + 1) inStep
    | slot source =>
      cases source with
      | text text =>
        rw [walk, walk]
        split
        · exact ih behind (position + 1) inStep
        · exact ⟨bring _ _, inStep⟩
      | @rendering r r' twins =>
        have soundHere := sound r (Piece.mem_renderings.2 List.mem_cons_self)
        obtain ⟨waits, waits'⟩ | ⟨ended, same⟩ := twins.endsLike
        · rw [walk_of_waits waits, walk_of_waits waits']
          exact ⟨.pending ⟨rfl, .cons (.slot (.rendering twins)) others, rfl⟩, inStep⟩
        · obtain rfl : r = r' := same
          cases r with
          | done markup =>
            rw [walk, walk]
            split
            · exact ih behind (position + 1) inStep
            · exact ⟨bring _ _, inStep⟩
          | failed | panicked => cases soundHere
          | _ => cases ended
      | patches =>
        -- The only place where the two may bring different chunks.
        obtain ⟨answers, asked⟩ := inStep.drain
        have here : List.Forall₂ (Piece.Twin F) (.slot (some (.sequence .patches)) :: rest)
          (.slot (some (.sequence .patches)) :: rest') := .cons (.slot .patches) others
        rw [walk, walk, Sequence.poll, Sequence.poll]
        rcases drained : w.drain with ⟨answer, after⟩
        rcases drained' : v.drain with ⟨answer', after'⟩
        rw [drained, drained'] at answers asked
        dsimp only at answers asked ⊢
        cases answers with
        | item same =>
          cases same with
          | ok same => exact ⟨.ready (.some (.ok same)) ⟨rfl, here, rfl⟩, asked⟩
        | finished => exact ih behind (position + 1) asked.close
        | waiting => exact ⟨.pending ⟨rfl, here, rfl⟩, asked⟩

/-- Both streams are asked for a chunk. -/
theorem Twin.poll {s s' : TemplateStream} (twins : s.Twin F s') (missing : Missing F all)
    {w v : EventLoop} (inStep : w.InStep F (OwnSlot F all) v) (inAll : s.asked w ⊆ all)
    (calm : Unfailing (s.asked w)) (calm' : Unfailing (s'.asked v)) :
    Polled.Related (TemplateStream.Twin F) (Item.SameButAt (OwnSlot F all)) (s.poll w).1
        (s'.poll v).1 ∧
      (s.poll w).2.InStep F (OwnSlot F all) (s'.poll v).2 := by
  cases finished : s.finished with
  | true =>
    rw [poll_of_finished finished, poll_of_finished (twins.finished.symm.trans finished)]
    exact ⟨.ready .none twins, inStep⟩
  | false =>
    have goesOn : s'.finished = false := twins.finished.symm.trans finished
    rw [asked, finished] at inAll calm
    rw [asked, goesOn] at calm'
    obtain ⟨left, left', w', v', drives, drives', kept, inStep, sound⟩ :=
      drives_twins missing twins.pieces false false inStep inAll calm calm'
    rw [drives.poll finished, drives'.poll goesOn, ← twins.position]
    exact walk_twins kept sound s.position inStep

end TemplateStream

namespace Document

variable {F : String → Prop} {all : List (Rendering × EventLoop)} {d d' : Document} {w v : EventLoop}

/-- What both documents report about their chunks. -/
theorem Twin.record (twins : d.Twin F d') {own : Nat → Prop}
    {result result' : StreamPoll TemplateStream × EventLoop}
    (related : Polled.Related (TemplateStream.Twin F) (Item.SameButAt own) result.1 result'.1)
    (inStep : result.2.InStep F own result'.2) :
    Polled.Related (Document.Twin F) (Item.SameButAt own) (d.record result).1
        (d'.record result').1 ∧
      (d.record result).2.InStep F own (d'.record result').2 := by
  obtain ⟨answer, w'⟩ := result
  obtain ⟨answer', v'⟩ := result'
  cases related with
  | pending left => exact ⟨.pending { twins with stream := left }, inStep⟩
  | ready answers left =>
    cases answers with
    | none => exact ⟨.ready .none { twins with stream := left }, inStep.note _ _⟩
    | some same =>
      cases same with
      | ok same =>
        have counted := congrArg (· + 1) twins.chunks
        exact ⟨.ready (.some (.ok same)) { twins with stream := left, chunks := counted }, inStep⟩

/-- Both documents are asked for a chunk: they agree whether one comes, and it is the same unless it is
    a patch of a fragment that was late and of which the value came to something else. -/
theorem Twin.poll (twins : d.Twin F d') (missing : Missing F all)
    (inStep : w.InStep F (OwnSlot F all) v) (inAll : d.asked w ⊆ all) (calm : Unfailing (d.asked w))
    (calm' : Unfailing (d'.asked v)) :
    Polled.Related (Document.Twin F) (Item.SameButAt (OwnSlot F all)) (d.poll w).1 (d'.poll v).1 ∧
      (d.poll w).2.InStep F (OwnSlot F all) (d'.poll v).2 := by
  have behalf : (w.behalf (journalName d.requestId)).InStep F (OwnSlot F all)
      (v.behalf (journalName d'.requestId)) :=
    inStep.timeline ⟨inStep.clock.now, inStep.clock.sleeps⟩
  obtain ⟨related, inStep⟩ := twins.stream.poll missing behalf inAll calm calm'
  obtain ⟨related, inStep⟩ := twins.record related inStep
  exact ⟨related, inStep.timeline ⟨inStep.clock.now, inStep.clock.sleeps⟩⟩

/-- Both documents wait for the same sleeps. -/
theorem Twin.alarms_eq (twins : d.Twin F d') : d.stream.alarms = d'.stream.alarms := by
  unfold TemplateStream.alarms
  have pieces := twins.stream.pieces
  generalize d.stream.pieces = pieces, d'.stream.pieces = pieces' at pieces
  induction pieces with
  | nil => rfl
  | @cons piece piece' _ _ first _ ih =>
    have same : piece.alarms = piece'.alarms := by
      cases first with
      | segment | absent => rfl
      | slot source =>
        cases source with
        | text | patches => rfl
        | rendering twins => exact twins.alarms_eq
    rw [List.flatMap_cons, List.flatMap_cons, same, ih]

end Document

/-! ### The beginning -/

/-- Two collections of sources with the same names differ only in what the values of late fragments
    come to. -/
def Sources.Twin (F : String → Prop) (sources sources' : Sources) : Prop :=
  List.Forall₂ (fun entry entry' => entry.1 = entry'.1 ∧ Source.Twin F entry.2 entry'.2)
    sources.entries sources'.entries

namespace Sources.Twin

variable {F : String → Prop} {sources sources' : Sources}

theorem erase (twins : sources.Twin F sources') (name : String) :
    Sources.Twin F (Named.erase sources name) (Named.erase sources' name) := by
  refine List.rel_filter (fun entry entry' same => ?_) twins
  dsimp only
  rw [same.1]

theorem put (twins : sources.Twin F sources') (name : String) {source source' : Source}
    (same : source.Twin F source') :
    Sources.Twin F (Named.put sources name source) (Named.put sources' name source') :=
  .cons ⟨rfl, same⟩ (twins.erase name)

theorem ofList {entries entries' : List (String × Source)}
    (twins : List.Forall₂ (fun entry entry' => entry.1 = entry'.1 ∧ Source.Twin F entry.2 entry'.2)
      entries entries') : Sources.Twin F (Named.ofList entries) (Named.ofList entries') := by
  have each {sources sources' : Sources} (before : sources.Twin F sources') : Sources.Twin F
      (entries.foldl (fun n entry => n.put entry.1 entry.2) sources)
      (entries'.foldl (fun n entry => n.put entry.1 entry.2) sources') := by
    induction twins generalizing sources sources' with
    | nil => exact before
    | @cons entry entry' _ _ first _ ih =>
      obtain ⟨name, source⟩ := entry
      obtain ⟨name', source'⟩ := entry'
      obtain ⟨rfl, same⟩ := first
      exact ih (before.put name same)
  exact each .nil

theorem get? (twins : sources.Twin F sources') (name : String) :
    Option.Rel (Source.Twin F) (Named.get? sources name) (Named.get? sources' name) := by
  unfold Named.get?
  unfold Sources.Twin at twins
  generalize sources.entries = entries, sources'.entries = entries' at twins
  induction twins with
  | nil => exact .none
  | @cons entry entry' _ _ first _ ih =>
    obtain ⟨key, source⟩ := entry
    obtain ⟨key', source'⟩ := entry'
    obtain ⟨rfl, same⟩ := first
    rw [List.lookup_cons, List.lookup_cons]
    cases name == key with
    | true => exact .some same
    | false => exact ih

/-- The sources of a name are taken for use at the same slot. -/
theorem take (twins : sources.Twin F sources') (name : String) :
    Option.Rel (Source.Twin F) (sources.take name).1 (sources'.take name).1 ∧
      (sources.take name).2.Twin F (sources'.take name).2 := by
  have found := twins.get? name
  have erased := twins.erase name
  unfold Sources.take
  rcases here : Named.get? sources name with _ | source <;>
    rcases there : Named.get? sources' name with _ | source' <;> rw [here, there] at found
  case none.none => exact ⟨.none, twins⟩
  case none.some | some.none => cases found
  case some.some =>
    obtain ⟨same⟩ := found
    cases same with
    | text plain => exact ⟨.some (.text plain), twins⟩
    | rendering same => exact ⟨.some (.rendering same), erased⟩
    | patches => exact ⟨.some .patches, erased⟩

/-- Sources are assigned to the sections of a template. -/
theorem assign (twins : sources.Twin F sources') (sections : List (String × String)) {own : Nat → Prop}
    {w v : EventLoop} (inStep : w.InStep F own v) :
    List.Forall₂ (Piece.Twin F) (TemplateStream.assign sections sources w).1
        (TemplateStream.assign sections sources' v).1 ∧
      (TemplateStream.assign sections sources w).2.1.Twin F
        (TemplateStream.assign sections sources' v).2.1 ∧
      (TemplateStream.assign sections sources w).2.2.InStep F own
        (TemplateStream.assign sections sources' v).2.2 := by
  induction sections generalizing sources sources' w v with
  | nil => exact ⟨.nil, twins, inStep⟩
  | cons entry rest ih =>
    obtain ⟨name, text⟩ := entry
    obtain ⟨found, left⟩ := twins.take name
    rw [TemplateStream.assign, TemplateStream.assign]
    rcases taken : sources.take name with ⟨source?, others⟩
    rcases taken' : sources'.take name with ⟨source?', others'⟩
    rw [taken, taken'] at found left
    cases found with
    | none =>
      obtain ⟨pieces, left, inStep⟩ := ih left (inStep.note (.notice (.noSource name)) _)
      exact ⟨.cons .absent (.cons (.segment text) pieces), left, inStep⟩
    | some same =>
      obtain ⟨pieces, left, inStep⟩ := ih left inStep
      exact ⟨.cons (.slot same) (.cons (.segment text) pieces), left, inStep⟩

/-- Sources that no slot uses are given up. -/
theorem release (twins : sources.Twin F sources') {own : Nat → Prop} {w v : EventLoop}
    (inStep : w.InStep F own v) :
    (sources.entries.foldl (fun w source => source.2.release w) w).InStep F own
      (sources'.entries.foldl (fun w source => source.2.release w) v) := by
  unfold Sources.Twin at twins
  generalize sources.entries = entries, sources'.entries = entries' at twins
  induction twins generalizing w v with
  | nil => exact inStep
  | @cons entry entry' _ _ first _ ih =>
    obtain ⟨key, source⟩ := entry
    obtain ⟨key', source'⟩ := entry'
    refine ih ?_
    cases first.2 with
    | text | rendering => exact inStep
    | patches => exact inStep.close

end Sources.Twin

namespace Document

variable {F : String → Prop} {settings : Settings} {body body' : Node}

/-- The sources of two documents. -/
theorem twin_sources
    (twins : (bodyRendering settings body).Twin F (bodyRendering settings body')) :
    (sources settings body).Twin F (sources settings body') := by
  have ofNode (node : Node) : (Source.ofNode node .empty).Twin F (Source.ofNode node .empty) :=
    .rendering (.refl _)
  unfold sources
  refine Sources.Twin.ofList (List.rel_append ?_ ?_)
  · exact .cons ⟨rfl, ofNode _⟩ (.cons ⟨rfl, .text pad⟩ (.cons ⟨rfl, .rendering twins⟩
      (.cons ⟨rfl, .patches⟩ .nil)))
  · cases settings.endOfBody with
    | none => exact .nil
    | some node => exact .cons ⟨rfl, ofNode node⟩ .nil

/-- Two documents whose bodies differ only in what the values of late fragments come to begin in
    step. -/
theorem twin_start (differ : Node.Differ F (Environment.empty.deferringAfter settings.timeout) body body')
    (own : Nat → Prop) {w : EventLoop} (clean : ∀ error, .error error ∉ w.registry.ready) :
    (start settings body w).1.Twin F (start settings body' w).1 ∧
      (start settings body w).2.InStep F own (start settings body' w).2 := by
  have bodies : (bodyRendering settings body).Twin F (bodyRendering settings body') :=
    (Built.Differ.node differ).twins rfl
  have announced := (EventLoop.InStep.refl F own clean).timeline
    (t := (w.onBehalfOf (journalName settings.requestId) fun w =>
      ((), w.note (.notice (.renderingDocument settings.timeout)))).2.timeline) ⟨rfl, rfl⟩
  obtain ⟨pieces, left, inStep⟩ := (twin_sources bodies).assign settings.compiled.sections announced
  exact ⟨⟨⟨rfl, .cons (.segment _) pieces, rfl⟩, rfl, rfl⟩, left.release inStep⟩

end Document

end ProgressiveHtml
