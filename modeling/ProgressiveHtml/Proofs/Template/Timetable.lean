import ProgressiveHtml.Proofs.Document.Settling
import ProgressiveHtml.Proofs.Document.Watching
import ProgressiveHtml.Proofs.Template.Company

namespace ProgressiveHtml

/-!
# Template streams — when chunks come

The pieces of a template are written out in their order, but go on at the same time.  What a piece brings
comes as soon as it is there and all pieces in front of it are complete.

* `Share`, `Share.timetable` — what a piece brings, and when a reader without pauses gets it;
* `Piece.Brings` — what a piece brings that is alone from the start on;
* `Progress` — how far a template has been written out, on schedule;
* `Progress.pass`, `Progress.element`, `Progress.exhausted`, `Progress.turn`, `Progress.elapse` — what can
  happen keeps the schedule.
-/

/-! ### Timetables -/

/-- What a piece of a template brings: its chunks, each with the time from which on it is there, and the
    time at which the piece is complete. -/
structure Share where
  chunks : List (Nat × Chunk)
  complete : Nat

namespace Share

/-- Chunks come when they are there and everything in front of them has come. -/
def after (passed : Nat) (chunks : List (Nat × Chunk)) : List (Nat × Chunk) :=
  chunks.map fun (time, chunk) => (max passed time, chunk)

/-- When chunks come: first everything that one piece brings, then everything that the next one does. -/
def timetable : (passed : Nat) → List Share → List (Nat × Chunk)
  | _, [] => []
  | passed, share :: rest => after passed share.chunks ++ timetable (max passed share.complete) rest

/-- When all pieces are complete. -/
def closing : (passed : Nat) → List Share → Nat
  | passed, [] => passed
  | passed, share :: rest => closing (max passed share.complete) rest

/-- The time of the last of some entries. -/
def latest {α : Type} (entries : List (Nat × α)) : Nat := (entries.map (·.1)).foldr max 0

/-- Patches, each there from the time on at which its fragment is complete. -/
def patches (out : List (Nat × Chunk)) : Share := ⟨out, latest out⟩

variable (passed : Nat) (shares : List Share) (share : Share) {α β : Type} {entries : List (Nat × α)}

theorem closing_concat : closing passed (shares ++ [share]) =
    max (closing passed shares) share.complete := by
  induction shares generalizing passed with
  | nil => rfl
  | cons _ _ ih => exact ih _

theorem timetable_concat : timetable passed (shares ++ [share]) =
    timetable passed shares ++ after (closing passed shares) share.chunks := by
  induction shares generalizing passed with
  | nil => simp [timetable, closing]
  | cons _ _ ih => rw [List.cons_append, timetable, timetable, closing, ih, List.append_assoc]

theorem le_latest {entry : Nat × α} (member : entry ∈ entries) : entry.1 ≤ latest entries := by
  induction entries with
  | nil => cases member
  | cons first rest ih =>
    obtain rfl | later := List.mem_cons.1 member
    · exact Nat.le_max_left _ _
    · exact Nat.le_trans (ih later) (Nat.le_max_right _ _)

theorem latest_le {bound : Nat} (bounded : ∀ entry ∈ entries, entry.1 ≤ bound) :
    latest entries ≤ bound := by
  induction entries with
  | nil => exact Nat.zero_le _
  | cons first rest ih =>
    rw [List.forall_mem_cons] at bounded
    exact Nat.max_le.2 ⟨bounded.1, ih bounded.2⟩

/-- The time of the last entry does not depend on what the entries are. -/
theorem latest_map (f : α → β) (entries : List (Nat × α)) :
    latest (entries.map (Prod.map id f)) = latest entries := by
  simp only [latest, List.map_map]
  rfl

end Share

/-! ### What pieces bring -/

/-- What a piece brings that begins at `start`, if nothing fails and the patches in `out` have been handed
    out. -/
inductive Piece.Brings (start : Nat) (out : List (Nat × Chunk)) : Piece → Share → Prop
  | segment (text : String) : Brings start out (.segment text) ⟨(Chunk.literals text).map (0, ·), 0⟩
  | absent : Brings start out (.slot none) ⟨[], 0⟩
  | text (text : String) :
      Brings start out (.slot (some (.text text))) ⟨(Chunk.contents text).map (0, ·), 0⟩
  /-- A rendering brings its markup at the time at which it ends if it is alone. -/
  | rendering {r : Rendering} {alone markup : String} {time : Nat}
      (ends : r.EndsAlone start (.done alone) time) (becomes : r.Becomes (.done markup)) :
      Brings start out (.slot (some (.rendering r)))
        ⟨(Chunk.contents markup).map (time, ·), time⟩
  | patches : Brings start out (.slot (some (.sequence .patches))) (.patches out)

section

variable {start : Nat} {out : List (Nat × Chunk)} {share : Share}

@[simp] theorem Piece.brings_segment {text : String} : (Piece.segment text).Brings start out share ↔
    share = ⟨(Chunk.literals text).map (0, ·), 0⟩ :=
  ⟨fun brings => by cases brings; rfl, fun same => same ▸ .segment text⟩

@[simp] theorem Piece.brings_absent : (Piece.slot none).Brings start out share ↔ share = ⟨[], 0⟩ :=
  ⟨fun brings => by cases brings; rfl, fun same => same ▸ .absent⟩

@[simp] theorem Piece.brings_text {text : String} :
    (Piece.slot (some (.text text))).Brings start out share ↔
      share = ⟨(Chunk.contents text).map (0, ·), 0⟩ :=
  ⟨fun brings => by cases brings; rfl, fun same => same ▸ .text text⟩

theorem Piece.brings_rendering {r : Rendering} :
    (Piece.slot (some (.rendering r))).Brings start out share ↔ ∃ time markup,
      (∃ alone, r.EndsAlone start (.done alone) time) ∧ r.Becomes (.done markup) ∧
        share = ⟨(Chunk.contents markup).map (time, ·), time⟩ := by
  constructor
  · rintro ⟨⟩
    rename_i alone markup time ends becomes
    exact ⟨time, markup, ⟨alone, ends⟩, becomes, rfl⟩
  · rintro ⟨time, markup, ⟨alone, ends⟩, becomes, rfl⟩
    exact .rendering ends becomes

@[simp] theorem Piece.brings_patches :
    (Piece.slot (some (.sequence .patches))).Brings start out share ↔ share = .patches out :=
  ⟨fun brings => by cases brings; rfl, fun same => same ▸ .patches⟩

end

/-- Only the place of the patches depends on them. -/
theorem Piece.Brings.other {start : Nat} {out out' : List (Nat × Chunk)} {piece : Piece} {share : Share}
    (plain : piece.isSequence = false) (brings : piece.Brings start out share) :
    piece.Brings start out' share := by
  cases brings with
  | segment text => exact .segment text
  | absent => exact .absent
  | text text => exact .text text
  | rendering ends becomes => exact .rendering ends becomes
  | patches => cases plain

/-- It is not too late for a piece: what it brings next is not there before now, or what is in front of it
    is not.  At the end nothing is awaited. -/
def Piece.InTime (start passed : Nat) (ends later : List (Nat × Item)) (w : EventLoop) :
    List Piece → Prop
  | .slot (some (.rendering r)) :: _ =>
    ∀ left time, r.EndsAlone start left time → w.now ≤ max passed time
  | .slot (some (.sequence _)) :: _ => (∀ entry ∈ later, w.now ≤ max passed entry.1) ∧
    (w.registry.tasks = [] → w.now ≤ max passed (Share.latest ends))
  | _ => w.now ≤ passed

/-- It is not too late for anything if something has just been passed. -/
theorem Piece.InTime.of_le {start passed : Nat} {ends later : List (Nat × Item)} {w : EventLoop}
    (early : w.now ≤ passed) (pieces : List Piece) : Piece.InTime start passed ends later w pieces := by
  unfold InTime
  split
  · exact fun _ _ _ => Nat.le_trans early (Nat.le_max_left _ _)
  · exact ⟨fun _ _ => Nat.le_trans early (Nat.le_max_left _ _),
      fun _ => Nat.le_trans early (Nat.le_max_left _ _)⟩
  · exact early

/-- It stays so when more is ready at this very instant. -/
theorem Piece.InTime.imp {start passed : Nat} {ends ends' later later' : List (Nat × Item)}
    {w w' : EventLoop} {pieces : List Piece} (inTime : InTime start passed ends later w pieces)
    (now : w'.now = w.now) (ready : ∀ entry ∈ later', entry ∈ later ∨ w.now ≤ entry.1)
    (idle : w'.registry.tasks = [] → w.registry.tasks = [] ∧ Share.latest ends ≤ Share.latest ends' ∨
      w.now ≤ Share.latest ends') : InTime start passed ends' later' w' pieces := by
  match pieces, inTime with
  | .slot (some (.rendering _)) :: _, inTime =>
    exact fun left time ends => now ▸ inTime left time ends
  | .slot (some (.sequence _)) :: _, ⟨inTime, atLast⟩ =>
    refine ⟨fun entry member => ?_, fun none => ?_⟩
    · obtain already | isNew := ready entry member
      · exact now ▸ inTime entry already
      · exact now ▸ Nat.le_trans isNew (Nat.le_max_right _ _)
    · obtain ⟨already, less⟩ | isNew := idle none
      · have atLast := atLast already
        omega
      · exact now ▸ Nat.le_trans isNew (Nat.le_max_right _ _)
  | [], inTime | .segment _ :: _, inTime | .slot none :: _, inTime | .slot (some (.text _)) :: _, inTime =>
    exact now.trans_le inTime

/-! ### Turns -/

namespace EventLoop.Reached

variable {past : List Happening} {w : EventLoop}

/-- While the registry is open, the item of a fragment is ready when the fragment has come to its end. -/
theorem ready_runNext (reached : Reached past w) (stillOpen : w.registry.closed = false) :
    w.runNext.registry.ready = w.registry.ready ++ w.completed?.toList.map (·.item) := by
  have moves := w.turned_meanwhile
  have before := reached.accounts.order stillOpen
  have after := (reached.meanwhile moves).accounts.order (moves.closed.trans stillOpen)
  rw [History.completions_append, List.map_append, before, History.yields_append, yields_turned,
    completions_turned, List.append_nil, List.append_assoc] at after
  exact (List.append_cancel_left after).symm

/-- When no fragment comes to its end in a turn, what was on its way still is. -/
theorem idle_of_runNext (reached : Reached past w) (stillOpen : w.registry.closed = false)
    (nobody : w.completed? = none) (idle : w.runNext.registry.tasks = []) : w.registry.tasks = [] := by
  have moves := w.turned_meanwhile
  have placed := (reached.accounts.placed stillOpen).length_eq
  have placedAfter :=
    ((reached.meanwhile moves).accounts.placed (moves.closed.trans stillOpen)).length_eq
  simp only [History.accepted_append, History.completions_append, completions_turned, nobody, idle,
    Option.toList_none, List.append_nil, List.map_nil, List.length_append, List.length_map]
    at placed placedAfter
  exact List.eq_nil_of_length_eq_zero (by omega)

end EventLoop.Reached

/-! ### Progress -/

/-- A place for patches behind the first piece is a place for patches. -/
theorem Piece.isSequence_of_tail {pieces : List Piece} (place : pieces.tail.any Piece.isSequence) :
    pieces.any Piece.isSequence := by
  obtain ⟨piece, member, isPlace⟩ := List.any_eq_true.1 place
  exact List.any_eq_true.2 ⟨piece, List.mem_of_mem_tail member, isPlace⟩

/-- How far a template has been written out, on schedule: the pieces that were passed, with what they
    brought, and those that are left, as they were at first; the patches that have been handed out, and
    the items that are ready; the ends of fragments, and what the reader got. -/
structure Progress (start : Nat) (ends yields : List (Nat × Item)) (passed : List Piece)
    (shares : List Share) (out : List (Nat × Chunk)) (later : List (Nat × Item)) (left : List Piece)
    (w : EventLoop) : Prop where
  /-- There is one place for the patches. -/
  patches : (passed ++ left).filter Piece.isSequence = [.slot (some (.sequence .patches))]
  brought : List.Forall₂ (Piece.Brings start out) passed shares
  accounted : ends = out.map (Prod.map id .ok) ++ later
  past : ∀ entry ∈ ends, entry.1 ≤ w.now
  since : Share.closing start shares ≤ w.now
  inTime : Piece.InTime start (Share.closing start shares) ends later w left
  /-- Patches come one by one while their place is next. -/
  arrived : yields = (Share.timetable start shares ++ if left.any Piece.isSequence then
    Share.after (Share.closing start shares) out else []).map (Prod.map id .ok)
  ahead : left.tail.any Piece.isSequence → out = []
  ready : left.any Piece.isSequence → later.map (·.2) = w.registry.ready
  /-- The registry is open until the place of the patches has been passed. -/
  closed : w.registry.closed = !left.any Piece.isSequence
  behind : left.any Piece.isSequence = false → later = []

namespace Progress

variable {start : Nat} {ends yields : List (Nat × Item)} {passed left : List Piece}
  {shares : List Share} {out : List (Nat × Chunk)} {later : List (Nat × Item)} {w w' : EventLoop}
  {piece : Piece} {share : Share}

/-- At the beginning. -/
theorem begin (patches : left.filter Piece.isSequence = [.slot (some (.sequence .patches))])
    (ready : w.registry.ready = []) (stillOpen : w.registry.closed = false) :
    Progress w.now [] [] [] [] [] [] left w where
  patches := patches
  brought := .nil
  accounted := rfl
  past _ none := absurd none List.not_mem_nil
  since := Nat.le_refl _
  inTime := .of_le (Nat.le_refl _) left
  arrived := by simp [Share.timetable, Share.after]
  ahead _ := rfl
  ready _ := ready.symm
  closed := by
    have place : Piece.slot (some (.sequence .patches)) ∈ left.filter Piece.isSequence := by simp [patches]
    have here : left.any Piece.isSequence := List.any_eq_true.2 ⟨_, List.mem_filter.1 place⟩
    rw [here, stillOpen]
    rfl
  behind _ := rfl

/-- Something happens that has nothing to do with the schedule. -/
theorem congr (progress : Progress start ends yields passed shares out later left w)
    (now : w'.now = w.now) (ready : w'.registry.ready = w.registry.ready)
    (closed : w'.registry.closed = w.registry.closed)
    (idle : w'.registry.tasks = [] → w.registry.tasks = []) :
    Progress start ends yields passed shares out later left w' where
  __ := progress
  past := now ▸ progress.past
  since := now ▸ progress.since
  inTime := progress.inTime.imp now (fun _ => .inl) fun none => .inl ⟨idle none, Nat.le_refl _⟩
  ready place := (progress.ready place).trans ready.symm
  closed := closed.trans progress.closed

/-- A piece has been written out that is no place for patches. -/
theorem pass (progress : Progress start ends yields passed shares out later (piece :: left) w)
    (plain : piece.isSequence = false) (brings : piece.Brings start out share)
    (now : w.now = max (Share.closing start shares) share.complete) :
    Progress start ends
      (yields ++ (Share.after (Share.closing start shares) share.chunks).map (Prod.map id .ok))
      (passed ++ [piece]) (shares ++ [share]) out later left w := by
  have same : (piece :: left).any Piece.isSequence = left.any Piece.isSequence := by simp [plain]
  have none : left.any Piece.isSequence → out = [] := progress.ahead
  have closing := Share.closing_concat start shares share
  constructor
  case patches => simpa using progress.patches
  case brought => exact List.rel_append progress.brought (.cons brings .nil)
  case accounted => exact progress.accounted
  case past => exact progress.past
  case since => exact Nat.le_of_eq (closing.trans now.symm)
  case inTime => exact .of_le (Nat.le_of_eq (now.trans closing.symm)) left
  case arrived =>
    rw [progress.arrived, same, Share.timetable_concat]
    -- Patches that are behind have not come yet, and those in front have come before.
    by_cases place : left.any Piece.isSequence
    · simp [none place, Share.after]
    · simp [place]
  case ahead => exact fun place => none (Piece.isSequence_of_tail place)
  case ready => exact same ▸ progress.ready
  case closed => exact same ▸ progress.closed
  case behind => exact same ▸ progress.behind

/-- A sequence is the place of the patches, and there is no other one. -/
theorem only {s : Sequence}
    (progress : Progress start ends yields passed shares out later (.slot (some (.sequence s)) :: left) w) :
    s = .patches ∧ (∀ piece ∈ passed, piece.isSequence = false) ∧ left.any Piece.isSequence = false := by
  have patches := progress.patches
  rw [List.filter_append, List.filter_cons_of_pos rfl] at patches
  obtain ⟨none, same⟩ | ⟨rest, -, none⟩ := List.append_eq_cons_iff.1 patches
  · obtain ⟨isPatches, behind⟩ := List.cons.inj same
    refine ⟨by simpa using isPatches, ?_, ?_⟩
    · simpa using List.filter_eq_nil_iff.1 none
    · simpa using List.filter_eq_nil_iff.1 behind
  · simp at none

/-- A patch is handed out. -/
theorem element {chunk : Chunk} (asked : w.drain = (.item (.ok chunk), w'))
    (progress : Progress start ends yields passed shares out later
      (.slot (some (.sequence .patches)) :: left) w) :
    ∃ time later', Progress start ends (yields ++ [(w.now, .ok chunk)]) passed shares
      (out ++ [(time, chunk)]) later' (.slot (some (.sequence .patches)) :: left) w' := by
  obtain ⟨-, passedNone, leftNone⟩ := progress.only
  obtain ⟨now, -⟩ := EventLoop.drain_apart asked
  obtain ⟨closed, -, tasks⟩ := EventLoop.registry_of_drain asked
  have ready : later.map (·.2) = .ok chunk :: w'.registry.ready :=
    (progress.ready rfl).trans (EventLoop.ready_of_drain asked)
  obtain ⟨⟨time, item⟩, later', rfl, rfl, others⟩ := List.map_eq_cons_iff.1 ready
  have all := progress.accounted
  obtain ⟨inTime, inTimeAtLast⟩ := progress.inTime
  rw [List.forall_mem_cons] at inTime
  -- It is handed out at once: neither before it is there nor after its time.
  have isPast : time ≤ w.now := progress.past (time, .ok chunk) (by simp [all])
  have isNow : w.now = max (Share.closing start shares) time :=
    Nat.le_antisymm inTime.1 (Nat.max_le.2 ⟨progress.since, isPast⟩)
  refine ⟨time, later', ?_⟩
  constructor
  case patches => exact progress.patches
  case brought =>
    refine (((List.forall₂_and_left _ _).2 ⟨passedNone, progress.brought⟩).imp ?_)
    exact fun piece share ⟨plain, brings⟩ => brings.other plain
  case accounted => simpa using all
  case past => exact now ▸ progress.past
  case since => exact now ▸ progress.since
  case inTime => exact ⟨now ▸ inTime.2, fun none => now ▸ inTimeAtLast (tasks ▸ none)⟩
  case arrived => simp [progress.arrived, Piece.isSequence, Share.after, isNow]
  case ahead => exact fun again => absurd again (by simp [leftNone])
  case ready => exact fun _ => others
  case closed => exact closed.trans progress.closed
  case behind => exact fun none => by simp [Piece.isSequence] at none

/-- All patches have been handed out, and the registry is given up. -/
theorem exhausted {past : List Happening} (reached : EventLoop.Reached past w)
    (asked : w.drain = (.finished, w'))
    (progress : Progress start ends yields passed shares out later
      (.slot (some (.sequence .patches)) :: left) w) :
    Progress start ends yields (passed ++ [.slot (some (.sequence .patches))])
      (shares ++ [.patches out]) out [] left w'.close := by
  obtain ⟨-, -, leftNone⟩ := progress.only
  obtain ⟨now, -⟩ := EventLoop.drain_apart asked
  have finished : w.registry.drain.1 = .finished := by rw [← w.drain_registry.1, asked]
  have nothing : later = [] := by
    simpa [((Registry.drain_finished_iff _).1 finished).1] using progress.ready rfl
  have all := progress.accounted
  rw [nothing, List.append_nil] at all
  have last : Share.latest ends = Share.latest out := by rw [all, Share.latest_map]
  have closing := Share.closing_concat start shares (.patches out)
  -- The last fragment ends now, unless all had ended before their place was reached.
  have isNow : w.now = max (Share.closing start shares) (Share.latest out) := by
    refine Nat.le_antisymm ?_ (Nat.max_le.2 ⟨progress.since, ?_⟩)
    · exact last ▸ progress.inTime.2 (reached.idle_of_drain finished)
    · exact last ▸ Share.latest_le progress.past
  have present : w'.close.now = w.now := now
  constructor
  case patches => simpa using progress.patches
  case brought => exact List.rel_append progress.brought (.cons .patches .nil)
  case accounted => rw [all, List.append_nil]
  case past => exact present ▸ progress.past
  case since => exact Nat.le_of_eq (closing.trans (isNow.symm.trans present.symm))
  case inTime => exact .of_le (Nat.le_of_eq (present.trans (isNow.trans closing.symm))) left
  case arrived =>
    rw [progress.arrived, Share.timetable_concat]
    simp [leftNone, Piece.isSequence, Share.patches]
  case ahead => exact fun again => absurd (Piece.isSequence_of_tail again) (by simp [leftNone])
  case ready => exact fun again => by simp [leftNone] at again
  case closed => rw [leftNone]; rfl
  case behind => exact fun _ => rfl

/-- A fragment has its turn. -/
theorem turn {past : List Happening} (reached : EventLoop.Reached past w)
    (progress : Progress start ends yields passed shares out later left w) :
    ∃ later', Progress start (ends ++ w.completed?.toList.map fun c => (w.now, c.item)) yields passed
      shares out later' left w.runNext := by
  have now := w.runNext_now
  have closed : w.runNext.registry.closed = w.registry.closed := w.turned_meanwhile.closed
  cases place : left.any Piece.isSequence with
  | false =>
    -- A registry that has been given up has no fragments.
    have shut : w.registry.closed = true := by rw [progress.closed, place]; rfl
    have idle := (reached.accounts.idle shut).1
    obtain ⟨queue, same⟩ := EventLoop.runNext_of_idle idle
    refine ⟨later, ?_⟩
    rw [EventLoop.completed?_of_idle idle, Option.toList_none, List.map_nil, List.append_nil, same]
    exact progress.congr rfl rfl rfl fun _ => idle
  | true =>
    have stillOpen : w.registry.closed = false := by rw [progress.closed, place]; rfl
    refine ⟨later ++ w.completed?.toList.map fun c => (w.now, c.item), ?_⟩
    constructor
    case patches => exact progress.patches
    case brought => exact progress.brought
    case accounted => rw [progress.accounted, List.append_assoc]
    case past =>
      rw [now]
      refine List.forall_mem_append.2 ⟨progress.past, ?_⟩
      simp
    case since => exact now ▸ progress.since
    case inTime =>
      refine progress.inTime.imp now (fun entry member => ?_) fun none => ?_
      · obtain already | isNew := List.mem_append.1 member
        · exact .inl already
        · obtain ⟨c, -, rfl⟩ := List.mem_map.1 isNew
          exact .inr (Nat.le_refl _)
      · cases completed : w.completed? with
        | some c => exact .inr (Share.le_latest (show (w.now, c.item) ∈ _ by simp))
        | none => exact .inl ⟨reached.idle_of_runNext stillOpen completed none, by simp⟩
    case arrived => exact progress.arrived
    case ahead => exact progress.ahead
    case ready =>
      intro _
      rw [reached.ready_runNext stillOpen, List.map_append, progress.ready place, List.map_map]
      rfl
    case closed => rw [closed, progress.closed]
    case behind => exact fun none => by simp [place] at none

/-- Time passes. -/
theorem elapse (progress : Progress start ends yields passed shares out later left w)
    (now : w.now ≤ w'.now) (ready : w'.registry.ready = w.registry.ready)
    (closed : w'.registry.closed = w.registry.closed)
    (inTime : Piece.InTime start (Share.closing start shares) ends later w' left) :
    Progress start ends yields passed shares out later left w' where
  __ := progress
  past entry member := Nat.le_trans (progress.past entry member) now
  since := Nat.le_trans progress.since now
  inTime := inTime
  ready place := (progress.ready place).trans ready.symm
  closed := closed.trans progress.closed

end Progress

end ProgressiveHtml
