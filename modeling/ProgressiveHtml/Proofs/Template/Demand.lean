import ProgressiveHtml.Proofs.EventLoop.Company
import ProgressiveHtml.Proofs.Rendering.Pulls
import ProgressiveHtml.Proofs.Template.Reference

namespace ProgressiveHtml

/-!
# Template streams — sequences are asked on demand

A sequence is asked for one more item only when the reader asks for a chunk, and only when everything in
front of it has been handed out before.  So it is never more than one item ahead of the reader.

* `Answer.requests` — how often the registry was asked, by what it has answered;
* `Station` — a piece of a template, how often it was asked, and what it has brought;
* `Station.Complete`, `Station.At` — pieces that the reader has passed, and those that are still there;
* `Ledger.OnDemand` — the order in which pieces are asked;
* `TemplateStream.Walks.demand`, `TemplateStream.poll_demand` — what asking a stream for a chunk asks for;
* `TemplateStream.pulled_on_demand` — the same along every run.
-/

open Rendering

/-! ### Supplies -/

namespace Supply

/-- What asking a supply for its next item comes to, and what is left of it. -/
inductive Answers (s : Supply) : Answer → Supply → Prop
  | item {s' : Supply} {sleep : Sleep} {item : Item} (name : s'.name = s.name)
      (never : s'.never = s.never) (items : s.items = (sleep, item) :: s'.items)
      (asked : s'.asked = false) : Answers s (.item item) s'
  | waiting {s' : Supply} (name : s'.name = s.name) (never : s'.never = s.never)
      (items : s'.items.map (·.2) = s.items.map (·.2)) (asked : s'.asked = true) : Answers s .waiting s'
  | finished {s' : Supply} (settles : s.never = false) (items : s.items = []) : Answers s .finished s'

variable (s : Supply) (t : Timeline)

theorem poll_answers : s.Answers (s.poll t).1 (s.poll t).2.1 := by
  unfold poll
  split
  · rename_i empty
    cases never : s.never with
    | true => exact .waiting rfl never.symm (by simp [empty]) rfl
    | false => exact .finished never empty
  · rename_i sleep item rest items
    split
    · exact .item rfl rfl items rfl
    · exact .waiting rfl rfl (by simp [items]) rfl

/-- A supply writes down that it is asked, unless an item has been asked for before. -/
theorem pulls_poll : (s.poll t).2.2.pulls = t.pulls ++ if s.asked then [] else [s.name] := by
  have same : (s.poll t).2.2.pulls = (s.ask t).pulls :=
    congrArg (List.filterMap Event.pulled?) (s.events_poll t)
  rw [same, ask]
  split
  · exact (List.append_nil _).symm
  · exact t.pulls_note _

end Supply

/-- Giving up a sequence asks no sequence. -/
theorem EventLoop.PullsNothing.release {w : EventLoop} (still : w.PullsNothing) (s : Sequence) :
    (s.release w).calls = w.calls ∧ (s.release w).PullsNothing :=
  still.released ((Source.sequence s).release_eq w)

/-! ### The registry -/

namespace Answer

/-- The item that an answer brings. -/
def item? : Answer → Option Item
  | item brought => some brought
  | _ => none

/-- Whether an answer leaves a request open, which then gets another answer. -/
def isWaiting : Answer → Bool
  | waiting => true
  | _ => false

/-- How many requests got the given answers, the last of them maybe none so far but to wait. -/
def requests (answers : List Answer) : Nat :=
  answers.countP (!·.isWaiting) + if answers.getLast?.any isWaiting then 1 else 0

/-- Unless the end was reported, every request that is not open any more has brought an item. -/
theorem requests_of_unfinished {answers : List Answer} (unfinished : .finished ∉ answers) :
    requests answers = (answers.filterMap item?).length +
      if answers.getLast?.any isWaiting then 1 else 0 := by
  refine congrArg (· + _) ?_
  induction answers with
  | nil => rfl
  | cons answer rest ih =>
    rw [List.mem_cons, not_or] at unfinished
    have others := ih unfinished.2
    cases answer with
    | item => exact (List.countP_cons_of_pos rfl).trans (congrArg (· + 1) others)
    | finished => exact absurd rfl unfinished.1
    | waiting => exact (List.countP_cons_of_neg Bool.false_ne_true).trans others

/-- Another answer is one to a new request, or to the one that was open. -/
theorem requests_concat {answers : List Answer} (unfinished : .finished ∉ answers) (answer : Answer) :
    requests (answers ++ [answer]) = (answers.filterMap item?).length + 1 := by
  have earlier := requests_of_unfinished unfinished
  rw [requests, Nat.add_right_cancel_iff] at earlier
  rw [requests, List.countP_append, earlier]
  cases answer <;> simp [isWaiting]

end Answer

/-! ### Stations -/

/-- A piece of a template as it was at the start, how often it has been asked for one more item, what
    it has brought, and in case of the late fragments what the registry has answered. -/
structure Station where
  piece : Piece
  requests : Nat := 0
  brought : List Item := []
  answers : List Answer := []

namespace Station

/-- What the requests have left in the journal and among the answers of the registry. -/
def calls (station : Station) : Calls where
  pulls :=
    match station.piece with
    | .slot (some (.sequence (.supply s))) => List.replicate station.requests s.name
    | _ => []
  answers := station.answers

/-- Everything that the piece can bring has been handed out.  A rendering has come to its end, and a
    sequence has reported its end. -/
inductive Complete : Station → Prop
  | segment (text : String) : Complete ⟨.segment text, 0, (Chunk.literals text).map .ok, []⟩
  | absent : Complete ⟨.slot none, 0, [], []⟩
  | text (text : String) :
      Complete ⟨.slot (some (.text text)), 0, (Chunk.contents text).map .ok, []⟩
  | rendering {r : Rendering} {markup : String} (ends : r.Becomes (.done markup)) :
      Complete ⟨.slot (some (.rendering r)), 0, (Chunk.contents markup).map .ok, []⟩
  | supply {s : Supply} (settles : s.never = false) :
      Complete ⟨.slot (some (.sequence (.supply s))), s.items.length + 1, s.items.map (·.2), []⟩
  | patches {answers : List Answer} (unfinished : .finished ∉ answers) :
      Complete ⟨.slot (some (.sequence .patches)), Answer.requests (answers ++ [.finished]),
        answers.filterMap Answer.item?, answers ++ [.finished]⟩

/-- The piece is still there, and this is what is left of it. -/
inductive At : Station → Piece → Prop
  | segment (text : String) : At ⟨.segment text, 0, [], []⟩ (.segment text)
  | absent : At ⟨.slot none, 0, [], []⟩ (.slot none)
  | text (text : String) : At ⟨.slot (some (.text text)), 0, [], []⟩ (.slot (some (.text text)))
  | rendering {r left : Rendering} (becomes : r.Becomes left) (quiet : left.PullsNothing) :
      At ⟨.slot (some (.rendering r)), 0, [], []⟩ (.slot (some (.rendering left)))
  | supply {s left : Supply} (brought : List Item) (name : left.name = s.name)
      (never : left.never = s.never) (items : s.items.map (·.2) = brought ++ left.items.map (·.2)) :
      At ⟨.slot (some (.sequence (.supply s))), brought.length + left.asked.toNat, brought, []⟩
        (.slot (some (.sequence (.supply left))))
  | patches {answers : List Answer} (unfinished : .finished ∉ answers) :
      At ⟨.slot (some (.sequence .patches)), Answer.requests answers, answers.filterMap Answer.item?,
        answers⟩ (.slot (some (.sequence .patches)))

/-- Nothing has been asked of the piece, and it has brought nothing. -/
structure Idle (station : Station) : Prop where
  requests : station.requests = 0
  brought : station.brought = []
  answers : station.answers = []

/-- The last request is still to be answered; the given sequence is what is left of the piece. -/
def Awaits (station : Station) : Sequence → Prop
  | .supply s => s.asked = true
  | .patches => station.answers.getLast? = some .waiting

/-- A sequence has been asked once for each of its items that was handed out, and at most once more.  That
    request reported its end, or it is waited for in the first of the pieces that are left. -/
def OneAhead (station : Station) (left : List Piece) : Prop :=
  ∀ s, station.piece = .slot (some (.sequence s)) →
    station.requests = station.brought.length ∨
      station.requests = station.brought.length + 1 ∧ (station.Complete ∨
        ∃ s' rest, left = .slot (some (.sequence s')) :: rest ∧
          station.At (.slot (some (.sequence s'))) ∧ station.Awaits s')

variable {station : Station} {piece : Piece} {rest left : List Piece}

theorem Idle.calls (idle : station.Idle) : station.calls = {} := by
  refine Calls.ext ?_ idle.answers
  unfold Station.calls
  dsimp only
  split
  · rw [idle.requests]
    rfl
  · rfl

theorem Idle.oneAhead (idle : station.Idle) (left : List Piece) : station.OneAhead left :=
  fun _ _ => .inl (by rw [idle.requests, idle.brought]; rfl)

theorem Complete.oneAhead (complete : station.Complete) (left : List Piece) :
    station.OneAhead left := by
  intro s isSequence
  have done := complete
  cases complete with
  | supply => exact .inr ⟨by rw [List.length_map], .inl done⟩
  | patches unfinished => exact .inr ⟨Answer.requests_concat unfinished _, .inl done⟩
  | segment | absent | text | rendering => cases isSequence

theorem At.oneAhead (here : station.At piece) (rest : List Piece) :
    station.OneAhead (piece :: rest) := by
  intro s isSequence
  have still := here
  cases here with
  | @supply s left brought =>
    cases asked : left.asked with
    | false => exact .inl rfl
    | true => exact .inr ⟨rfl, .inr ⟨.supply left, rest, rfl, asked ▸ still, asked⟩⟩
  | @patches answers unfinished =>
    have requests := Answer.requests_of_unfinished unfinished
    split at requests
    · rename_i waits
      obtain ⟨last, isLast, isWaiting⟩ := (Option.any_eq_true ..).1 waits
      cases last with
      | waiting => exact .inr ⟨requests, .inr ⟨.patches, rest, rfl, still, isLast⟩⟩
      | _ => cases isWaiting
    · exact .inl requests
  | segment | absent | text | rendering => cases isSequence

/-- A blank piece has brought all it can. -/
theorem At.complete {slots : Nat} (here : station.At piece) (isBlank : piece.Blank slots) :
    station.Complete := by
  cases isBlank with
  | @segment text isEmpty =>
    cases here
    simpa [Chunk.literals, isEmpty] using Complete.segment text
  | absent =>
    cases here
    exact .absent
  | @text text isEmpty =>
    cases here
    simpa [Chunk.contents, isEmpty] using Complete.text text
  | markup isEmpty =>
    cases here with
    | rendering ends => simpa [Chunk.contents, isEmpty] using Complete.rendering ends

/-- A piece that is a chunk has brought all it can once it is written. -/
theorem At.complete_of_written {slots : Nat} {chunk : Chunk} (here : station.At piece)
    (isWritten : piece.Written slots chunk) :
    station.brought = [] ∧
      Complete ⟨station.piece, station.requests, [.ok chunk], station.answers⟩ := by
  cases isWritten with
  | @segment text filled =>
    cases here
    exact ⟨rfl, by simpa [Chunk.literals, filled] using Complete.segment text⟩
  | @text text filled =>
    cases here
    exact ⟨rfl, by simpa [Chunk.contents, filled] using Complete.text text⟩
  | markup filled =>
    cases here with
    | rendering ends => exact ⟨rfl, by simpa [Chunk.contents, filled] using Complete.rendering ends⟩

/-- What comes of asking the sequence of a piece: it brings an item, or nothing yet, or it has come to its
    end. -/
inductive Answers (station : Station) (left : Sequence) : Answer → Station → Prop
  | item {station' : Station} {item : Item} (here : station'.At (.slot (some (.sequence left))))
      (piece : station'.piece = station.piece) (brought : station'.brought = station.brought ++ [item]) :
      Answers station left (.item item) station'
  | waiting {station' : Station} (here : station'.At (.slot (some (.sequence left))))
      (piece : station'.piece = station.piece) (brought : station'.brought = station.brought) :
      Answers station left .waiting station'
  | finished {station' : Station} (complete : station'.Complete)
      (piece : station'.piece = station.piece) (brought : station'.brought = station.brought) :
      Answers station left .finished station'

/-- A supply that is asked has been asked once more than for the items that it had brought. -/
theorem At.ask_supply {s : Supply} {w : EventLoop} {base : Calls}
    (here : station.At (.slot (some (.sequence (.supply s)))))
    (calls : w.calls = base ++ station.calls) : ∃ station',
      station.Answers (.supply (s.poll w.timeline).2.1) (s.poll w.timeline).1 station' ∧
        { w with timeline := (s.poll w.timeline).2.2 }.calls = base ++ station'.calls := by
  cases here with
  | @supply whole _ brought name never items =>
    obtain ⟨pulls, same⟩ := Calls.ext_iff.1 calls
    have answers := s.poll_answers w.timeline
    have writes := s.pulls_poll w.timeline
    rcases polled : s.poll w.timeline with ⟨answer, left, t'⟩
    rw [polled] at answers writes
    dsimp only at answers writes ⊢
    have once : { w with timeline := t' }.calls =
        base ++ (⟨List.replicate (brought.length + 1) whole.name, []⟩ : Calls) := by
      refine Calls.ext ?_ same
      show t'.pulls = base.pulls ++ _
      rw [writes, show w.timeline.pulls = _ from pulls, Calls.append_def, Station.calls, name,
        List.append_assoc]
      cases s.asked <;> simp [List.replicate_succ']
    cases answers with
    | @item _ sleep item name' never' items' asked' =>
      refine ⟨_, .item (.supply (brought ++ [item]) (name'.trans name) (never'.trans never) ?_) rfl rfl,
        ?_⟩
      · rw [items, items', List.append_assoc]
        rfl
      · rw [asked', List.length_append]
        exact once
    | waiting name' never' items' asked' =>
      refine ⟨_, .waiting (.supply brought (name'.trans name) (never'.trans never) ?_) rfl rfl, ?_⟩
      · rw [items, items']
      · rw [asked']
        exact once
    | finished settles none =>
      -- It has ended, and so all of its items have been brought.
      rw [none, List.map_nil, List.append_nil] at items
      have complete := Complete.supply (never.symm.trans settles)
      rw [items, ← List.length_map (·.2), items] at complete
      exact ⟨_, .finished complete rfl rfl, once⟩

/-- The registry that is asked has given one more answer. -/
theorem At.ask_patches {answer : Answer} (here : station.At (.slot (some (.sequence .patches)))) :
    ∃ station', station.Answers .patches answer station' ∧
      station'.calls = station.calls ++ ({ answers := [answer] } : Calls) := by
  cases here with
  | @patches answers unfinished =>
    cases answer with
    | item item =>
      have more : .finished ∉ answers ++ [.item item] := by simpa using unfinished
      exact ⟨_, .item (.patches more) rfl (by simp [Answer.item?]), rfl⟩
    | waiting =>
      have more : .finished ∉ answers ++ [.waiting] := by simpa using unfinished
      exact ⟨_, .waiting (.patches more) rfl (by simp [Answer.item?]), rfl⟩
    | finished => exact ⟨_, .finished (.patches unfinished) rfl rfl, rfl⟩

/-- The sequence of a piece is asked. -/
theorem At.ask {s s' : Sequence} {answer : Answer} {w w' : EventLoop} {base : Calls}
    (here : station.At (.slot (some (.sequence s)))) (asked : s.poll w = (answer, s', w'))
    (still : w.PullsNothing) (calls : w.calls = base ++ station.calls) :
    ∃ station', station.Answers s' answer station' ∧ w'.PullsNothing ∧
      w'.calls = base ++ station'.calls := by
  cases s with
  | supply s =>
    obtain ⟨station', answers, writes⟩ := here.ask_supply calls
    rw [Sequence.poll] at asked
    obtain ⟨rfl, rest⟩ := Prod.mk.inj asked
    obtain ⟨rfl, rfl⟩ := Prod.mk.inj rest
    exact ⟨station', answers, still, writes⟩
  | patches =>
    obtain ⟨once, quiet⟩ := still.drain
    rw [Sequence.poll] at asked
    rcases drained : w.drain with ⟨answer', after⟩
    rw [drained] at asked once quiet
    obtain ⟨rfl, rest⟩ := Prod.mk.inj asked
    obtain ⟨rfl, rfl⟩ := Prod.mk.inj rest
    obtain ⟨station', answers, writes⟩ := here.ask_patches
    exact ⟨station', answers, quiet, by rw [once, calls, writes, Calls.append_assoc]⟩

end Station

/-! ### Ledgers -/

namespace Ledger

/-- What the requests of a ledger have left behind, one station after the other. -/
def calls : List Station → Calls
  | [] => {}
  | station :: rest => station.calls ++ calls rest

/-- What a ledger tells of pieces agrees with what the reader got, and with what sequences were asked
    between two states: the supplies, as the journal tells, and the registry, as its answers do. -/
structure Records (pieces : List Piece) (ledger : List Station) (yields : List Item)
    (before after : EventLoop) : Prop where
  pieces : ledger.map (·.piece) = pieces
  yields : ledger.flatMap (·.brought) = yields
  calls : after.calls = before.calls ++ calls ledger

/-- Pieces are asked in turn, as long as the given ones are left: what has been asked or has brought
    something stands behind pieces that are complete, and no sequence is more than one request ahead. -/
structure OnDemand (ledger : List Station) (left : List Piece) : Prop where
  inTurn : ∀ i station, ledger[i]? = some station → station.requests ≠ 0 ∨ station.brought ≠ [] →
    (∀ earlier ∈ ledger.take i, earlier.Complete) ∧ left.length + i ≤ ledger.length
  oneAhead : ∀ station ∈ ledger, station.OneAhead left
  within : left.length ≤ ledger.length

/-- The stations whose pieces are left; only the first can have been asked. -/
structure Front (ledger : List Station) (left : List Piece) : Prop where
  each : List.Forall₂ Station.At ledger left
  idle : ∀ station ∈ ledger.tail, station.Idle

/-- All stations: first those that have been passed. -/
inductive Stands : List Station → List Piece → Prop
  | front {ledger : List Station} {left : List Piece} (front : Front ledger left) : Stands ledger left
  | passed {station : Station} {ledger : List Station} {left : List Piece}
      (complete : station.Complete) (rest : Stands ledger left) : Stands (station :: ledger) left

/-- What one request of the reader does: it passes stations that are complete and bring nothing more, and
    then only one station is asked. -/
inductive Demands : List Station → List Station → Prop
  | same (ledger : List Station) : Demands ledger ledger
  | here {station station' : Station} (ledger : List Station) :
      Demands (station :: ledger) (station' :: ledger)
  | past {station station' : Station} {ledger asked : List Station} (complete : station'.Complete)
      (brought : station'.brought = station.brought) (rest : Demands ledger asked) :
      Demands (station :: ledger) (station' :: asked)

variable {station : Station} {ledger asked : List Station} {piece : Piece} {left : List Piece}

/-- Whatever is asked or brings something, everything in front of it is complete and had been handed out
    before. -/
theorem Demands.inTurn (demands : Demands ledger asked) (i : Nat) (changed : asked[i]? ≠ ledger[i]?) :
    (∀ earlier ∈ asked.take i, earlier.Complete) ∧
      (asked.take i).map (·.brought) = (ledger.take i).map (·.brought) := by
  induction demands generalizing i with
  | same => exact absurd rfl changed
  | here =>
    cases i with
    | zero => exact ⟨nofun, rfl⟩
    | succ i => exact absurd rfl changed
  | past complete brought _ ih =>
    cases i with
    | zero => exact ⟨nofun, rfl⟩
    | succ i =>
      obtain ⟨front, same⟩ := ih i changed
      refine ⟨List.forall_mem_cons.2 ⟨complete, front⟩, ?_⟩
      rw [List.take_succ_cons, List.take_succ_cons, List.map_cons, List.map_cons, brought, same]

namespace OnDemand

theorem ended : OnDemand [] [] := ⟨nofun, nofun, Nat.le_refl _⟩

/-- A station behind which nothing has been asked. -/
theorem first (oneAhead : station.OneAhead left) (idle : ∀ later ∈ ledger, later.Idle)
    (within : left.length ≤ ledger.length + 1) : OnDemand (station :: ledger) left where
  inTurn i other found busy := by
    cases i with
    | zero => exact ⟨nofun, within⟩
    | succ i =>
      have isIdle := idle other (List.mem_of_getElem? found)
      obtain some | some := busy
      · exact absurd isIdle.requests some
      · exact absurd isIdle.brought some
  oneAhead := List.forall_mem_cons.2 ⟨oneAhead, fun later member => (idle later member).oneAhead left⟩
  within := within

/-- A station that has been passed. -/
theorem passed (complete : station.Complete) (rest : OnDemand ledger left) :
    OnDemand (station :: ledger) left where
  inTurn i other found busy := by
    cases i with
    | zero => exact ⟨nofun, Nat.le_succ_of_le rest.within⟩
    | succ i =>
      obtain ⟨front, within⟩ := rest.inTurn i other found busy
      exact ⟨List.forall_mem_cons.2 ⟨complete, front⟩, Nat.succ_le_succ within⟩
  oneAhead := List.forall_mem_cons.2 ⟨complete.oneAhead left, rest.oneAhead⟩
  within := Nat.le_succ_of_le rest.within

end OnDemand

theorem idle_calls (idle : ∀ later ∈ ledger, later.Idle) : calls ledger = {} := by
  induction ledger with
  | nil => rfl
  | cons station rest ih =>
    obtain ⟨first, others⟩ := List.forall_mem_cons.1 idle
    rw [calls, first.calls, ih others]
    rfl

/-- The first station, and those behind it: nothing has been asked of them. -/
theorem Front.uncons (front : Front ledger (piece :: left)) : ∃ station rest, ledger = station :: rest ∧
    station.At piece ∧ Front rest left ∧ (∀ later ∈ rest, later.Idle) ∧
      calls (station :: rest) = station.calls := by
  obtain ⟨each, idle⟩ := front
  cases each with
  | @cons station _ rest _ here behind =>
    have front : Front rest _ :=
      ⟨behind, fun later member => idle later (List.mem_of_mem_tail member)⟩
    refine ⟨station, rest, rfl, here, front, idle, ?_⟩
    rw [calls, show calls rest = {} from idle_calls idle, Calls.append_empty]

/-- The first station changes as its piece does. -/
theorem Front.cons (here : station.At piece) (idle : ∀ later ∈ ledger, later.Idle)
    (behind : Front ledger left) : Front (station :: ledger) (piece :: left) where
  each := .cons here behind.each
  idle := idle

theorem Front.onDemand (front : Front ledger left) : OnDemand ledger left := by
  obtain ⟨each, idle⟩ := front
  cases each with
  | nil => exact .ended
  | cons here behind => exact .first (here.oneAhead _) idle (Nat.succ_le_succ behind.length_eq.ge)

theorem Stands.onDemand (stands : Stands ledger left) : OnDemand ledger left := by
  induction stands with
  | front front => exact front.onDemand
  | passed complete _ ih => exact .passed complete ih

end Ledger

/-! ### Asking a stream -/

namespace TemplateStream

open Ledger

/-- What asking a stream comes to: the ledger that it leaves, with what sequences were asked behind
    `base`. -/
structure Asked (base : Calls) (ledger asked : List Station)
    (result : StreamPoll TemplateStream × EventLoop) : Prop where
  demands : Demands ledger asked
  pieces : asked.map (·.piece) = ledger.map (·.piece)
  brought : asked.flatMap (·.brought) = ledger.flatMap (·.brought) ++ result.1.items
  calls : result.2.calls = base ++ calls asked
  still : result.2.PullsNothing
  onDemand : ∀ next, result.1.next? = some next → OnDemand asked next.pieces
  stands : ∀ next, result.1.next? = some next → next.finished = false → Stands asked next.pieces

namespace Asked

variable {base : Calls} {station station' : Station} {ledger asked : List Station}
  {result : StreamPoll TemplateStream × EventLoop}

/-- A station is passed that brings nothing more. -/
theorem past (complete : station'.Complete) (piece : station'.piece = station.piece)
    (brought : station'.brought = station.brought)
    (rest : Asked (base ++ station'.calls) ledger asked result) :
    Asked base (station :: ledger) (station' :: asked) result where
  demands := .past complete brought rest.demands
  pieces := by rw [List.map_cons, List.map_cons, piece, rest.pieces]
  brought := by rw [List.flatMap_cons, List.flatMap_cons, brought, rest.brought, List.append_assoc]
  calls := by rw [rest.calls, Ledger.calls, Calls.append_assoc]
  still := rest.still
  onDemand next isNext := .passed complete (rest.onDemand next isNext)
  stands next isNext goesOn := .passed complete (rest.stands next isNext goesOn)

/-- The first station answers, and nothing has been asked behind it. -/
theorem here (station' : Station) (piece : station'.piece = station.piece)
    (brought : station'.brought = station.brought ++ result.1.items)
    (idle : ∀ later ∈ ledger, later.Idle) (calls : result.2.calls = base ++ station'.calls)
    (still : result.2.PullsNothing) {s : TemplateStream} (isNext : result.1.next? = some s)
    (onDemand : OnDemand (station' :: ledger) s.pieces)
    (stands : s.finished = false → Stands (station' :: ledger) s.pieces) :
    Asked base (station :: ledger) (station' :: ledger) result where
  demands := .here ledger
  pieces := by rw [List.map_cons, List.map_cons, piece]
  brought := by
    have none : ledger.flatMap (·.brought) = [] :=
      List.flatMap_eq_nil_iff.2 fun later member => (idle later member).brought
    rw [List.flatMap_cons, List.flatMap_cons, none, List.append_nil, List.append_nil, brought]
  calls := by rw [Ledger.calls, idle_calls idle, Calls.append_empty, calls]
  still := still
  onDemand next same := by
    obtain rfl := Option.some.inj (isNext.symm.trans same)
    exact onDemand
  stands next same := by
    obtain rfl := Option.some.inj (isNext.symm.trans same)
    exact stands

end Asked

variable {base : Calls} {ledger : List Station} {pieces left : List Piece} {w w' : EventLoop}
  {position : Nat} {result : StreamPoll TemplateStream × EventLoop}

/-- Walking over the pieces that are left. -/
theorem Walks.demand (walks : Walks pieces position w result) (front : Front ledger pieces)
    (still : w.PullsNothing) (calls : w.calls = base ++ Ledger.calls ledger) :
    ∃ asked, Asked base ledger asked result := by
  induction walks generalizing ledger base with
  | ended =>
    obtain ⟨each, idle⟩ := front
    cases each
    refine ⟨[], .same _, rfl, rfl, calls, still, fun next isNext => ?_, fun next isNext goesOn => ?_⟩
    · obtain rfl := Option.some.inj isNext
      exact .ended
    · obtain rfl := Option.some.inj isNext
      cases goesOn
  | blank isBlank _ ih =>
    obtain ⟨station, ledger, rfl, here, behind, -⟩ := front.uncons
    rw [Ledger.calls, ← Calls.append_assoc] at calls
    -- Nothing was to come of this piece, and its station is complete.
    obtain ⟨asked, onward⟩ := ih behind still calls
    exact ⟨_, .past (here.complete isBlank) rfl rfl onward⟩
  | @written _ _ chunk isWritten =>
    obtain ⟨station, ledger, rfl, here, behind, idle, alone⟩ := front.uncons
    rw [alone] at calls
    obtain ⟨fresh, complete⟩ := here.complete_of_written isWritten
    have stands := Stands.passed complete (.front behind)
    refine ⟨_, .here ⟨_, _, [.ok chunk], _⟩ rfl ?_ idle calls still rfl stands.onDemand fun _ => stands⟩
    exact (congrArg (· ++ [.ok chunk]) fresh).symm
  | @failed error _ _ w =>
    obtain ⟨station, ledger, rfl, here, behind, idle, alone⟩ := front.uncons
    rw [alone] at calls
    cases here with
    | @rendering r =>
      -- The error has been brought by this station, and with it the stream ends.
      let failed : Station := ⟨.slot (some (.rendering r)), 0, [.error error], []⟩
      refine ⟨_, .here failed rfl rfl idle ?_ still rfl (.first ?_ idle ?_) fun goesOn => ?_⟩
      · exact (w.calls_note _).trans calls
      · intro s isSupply
        cases isSupply
      · exact Nat.succ_le_succ behind.each.length_eq.ge
      · cases goesOn
  | pending =>
    have stands := Stands.front front
    obtain ⟨station, ledger, rfl, here, behind, idle, alone⟩ := front.uncons
    rw [alone] at calls
    have none := (List.append_nil station.brought).symm
    exact ⟨_, .here station rfl none idle calls still rfl stands.onDemand fun _ => stands⟩
  | item asked =>
    obtain ⟨station, ledger, rfl, here, behind, idle, alone⟩ := front.uncons
    rw [alone] at calls
    obtain ⟨station', answers, still, writes⟩ := here.ask asked still calls
    cases answers with
    | item here piece brought =>
      have stands := Stands.front (.cons here idle behind)
      exact ⟨_, .here station' piece brought idle writes still rfl stands.onDemand fun _ => stands⟩
  | @error _ _ _ _ w' asked =>
    obtain ⟨station, ledger, rfl, here, behind, idle, alone⟩ := front.uncons
    rw [alone] at calls
    obtain ⟨station', answers, still, writes⟩ := here.ask asked still calls
    cases answers with
    | item here piece brought =>
      have onDemand := (Front.cons here idle behind).onDemand
      refine ⟨_, .here station' piece brought idle ?_ still rfl onDemand fun goesOn => ?_⟩
      · exact (w'.calls_note _).trans writes
      · cases goesOn
  | @finished _ s' _ _ _ w' _ asked _ ih =>
    obtain ⟨station, ledger, rfl, here, behind, idle, alone⟩ := front.uncons
    rw [alone] at calls
    obtain ⟨station', answers, still, writes⟩ := here.ask asked still calls
    cases answers with
    | finished complete piece brought =>
      obtain ⟨same, still⟩ := still.release s'
      -- The sequences behind have not been asked, so that all requests are those of this station and
      -- the ones before.
      have written : (s'.release w').calls = base ++ station'.calls ++ Ledger.calls ledger := by
        rw [same, writes, idle_calls idle, Calls.append_empty]
      obtain ⟨asked, onward⟩ := ih behind still written
      exact ⟨_, .past complete piece brought onward⟩
  | waiting asked =>
    obtain ⟨station, ledger, rfl, here, behind, idle, alone⟩ := front.uncons
    rw [alone] at calls
    obtain ⟨station', answers, still, writes⟩ := here.ask asked still calls
    cases answers with
    | waiting here piece brought =>
      have stands := Stands.front (.cons here idle behind)
      exact ⟨_, .here station' piece (brought.trans (List.append_nil _).symm) idle writes still rfl
        stands.onDemand fun _ => stands⟩

/-- Letting the renderings of all slots go on asks nothing. -/
theorem Drives.demand (drives : Drives pieces w left w') (each : List.Forall₂ Station.At ledger pieces)
    (still : w.PullsNothing) : w'.calls = w.calls ∧ w'.PullsNothing ∧
      List.Forall₂ Station.At ledger left := by
  induction drives generalizing ledger with
  | nil => exact ⟨rfl, still, each⟩
  | @rendering r _ _ w _ _ _ ih =>
    cases each with
    | cons here behind =>
      cases here with
      | rendering becomes quiet =>
        obtain ⟨same, quiet, still⟩ := still.poll quiet
        obtain ⟨later, still, each⟩ := ih behind still
        exact ⟨later.trans same, still, .cons (.rendering (becomes.ask w) quiet) each⟩
  | other _ _ ih =>
    cases each with
    | cons here behind =>
      obtain ⟨later, still, each⟩ := ih behind still
      exact ⟨later, still, .cons here each⟩

theorem Panics.demand {message : String} (panics : Panics pieces w message w')
    (each : List.Forall₂ Station.At ledger pieces) (still : w.PullsNothing) :
    w'.calls = w.calls ∧ w'.PullsNothing := by
  induction panics generalizing ledger with
  | here =>
    cases each with
    | cons here _ =>
      cases here with
      | rendering _ quiet =>
        obtain ⟨same, -, still⟩ := still.poll quiet
        exact ⟨same, still⟩
  | rendering _ _ ih =>
    cases each with
    | cons here behind =>
      cases here with
      | rendering _ quiet =>
        obtain ⟨same, -, still⟩ := still.poll quiet
        obtain ⟨later, still⟩ := ih behind still
        exact ⟨later.trans same, still⟩
  | other _ _ ih =>
    cases each with
    | cons _ behind => exact ih behind still

/-- Asking a stream that goes on. -/
theorem poll_demand {s : TemplateStream} (goesOn : s.finished = false) (stands : Stands ledger s.pieces)
    (still : w.PullsNothing) (calls : w.calls = base ++ Ledger.calls ledger) :
    ∃ asked, Asked base ledger asked (s.poll w) := by
  obtain ⟨position, pieces, finished⟩ := s
  obtain rfl : finished = false := goesOn
  dsimp only at stands
  induction stands generalizing base with
  | @front ledger pieces front =>
    obtain ⟨left, w', drives⟩ | ⟨message, w', panics⟩ := drives_or_panics pieces w
    · obtain ⟨same, still, each⟩ := drives.demand front.each still
      exact (drives.walks_poll rfl).demand ⟨each, front.idle⟩ still (same.trans calls)
    · obtain ⟨same, still⟩ := panics.demand front.each still
      rw [panics.poll rfl]
      refine ⟨ledger, .same _, rfl, (List.append_nil _).symm, same.trans calls, still,
        fun next isNext => ?_, fun next isNext => ?_⟩
      · cases isNext
      · cases isNext
  | passed complete _ ih =>
    rw [Ledger.calls, ← Calls.append_assoc] at calls
    obtain ⟨asked, onward⟩ := ih calls
    exact ⟨_, onward.past complete rfl rfl⟩

/-! ### Along every run -/

/-- The ledger of a stream that has been read for some time. -/
structure Books (pieces : List Piece) (before : EventLoop) (ledger : List Station) (yields : List Item)
    (s : TemplateStream) (w : EventLoop) : Prop where
  records : Records pieces ledger yields before w
  onDemand : OnDemand ledger s.pieces
  stands : s.finished = false → Stands ledger s.pieces
  still : w.PullsNothing

namespace Books

variable {all : List Piece} {before after : EventLoop} {yields : List Item} {s : TemplateStream}

/-- In the background nothing is entered. -/
theorem meanwhile {new : List Happening} (books : Books all before ledger yields s w)
    (moves : w.Meanwhile new after) : Books all before ledger yields s after where
  records :=
    { books.records with calls := (books.still.meanwhile moves).1.trans books.records.calls }
  onDemand := books.onDemand
  stands := books.stands
  still := (books.still.meanwhile moves).2

/-- Asking the stream enters what it asks for and what it brings. -/
theorem poll {answer : StreamPoll TemplateStream} (books : Books all before ledger yields s w)
    (asks : s.poll w = (answer, after)) : ∃ asked,
      Records all asked (yields ++ answer.items) before after ∧ Demands ledger asked ∧
        ∀ next, answer.next? = some next →
          Books all before asked (yields ++ answer.items) next after := by
  obtain ⟨⟨pieces, brought, calls⟩, onDemand, stands, still⟩ := books
  have ⟨asked, went⟩ : ∃ asked, Asked before.calls ledger asked (s.poll w) := by
    cases finished : s.finished with
    | false => exact poll_demand finished (stands finished) still calls
    | true =>
      rw [TemplateStream.poll, finished, if_pos rfl]
      refine ⟨ledger, .same _, rfl, (List.append_nil _).symm, calls, still, fun next isNext => ?_,
        fun next isNext goesOn => ?_⟩
      · obtain rfl := Option.some.inj isNext
        exact onDemand
      · obtain rfl := Option.some.inj isNext
        rw [finished] at goesOn
        cases goesOn
  rw [asks] at went
  have records : Records all asked (yields ++ answer.items) before after :=
    ⟨went.pieces.trans pieces, went.brought.trans (by rw [brought]), went.calls⟩
  exact ⟨asked, records, went.demands, fun next isNext =>
    ⟨records, went.onDemand next isNext, went.stands next isNext, went.still⟩⟩

end Books

/-! ### From the start -/

end TemplateStream

/-- A source that has not been asked yet.  What is rendered asks no sequence. -/
inductive Source.Unasked : Source → Prop
  | text (text : String) : Unasked (.text text)
  | rendering {r : Rendering} (quiet : r.PullsNothing) : Unasked (.rendering r)
  | supply {s : Supply} (fresh : s.asked = false) : Unasked (.sequence (.supply s))
  | patches : Unasked (.sequence .patches)

/-- An eventual value asks no sequence. -/
theorem Source.unasked_ofEventual (value : Eventual (Except RenderError String)) :
    (Source.ofEventual value).Unasked := by
  refine .rendering (Eventual.pullsNothing_conclude value ?_)
  cases value.result <;> trivial

/-- The sources given for a template have not been asked yet. -/
def Sources.Unasked (sources : Sources) : Prop :=
  ∀ name source, Named.get? sources name = some source → source.Unasked

/-- A piece of which nothing has been asked. -/
def Station.fresh (piece : Piece) : Station := { piece }

namespace TemplateStream

open Ledger

variable {sources : Sources}

theorem at_assign (sections : List (String × String)) (unasked : sources.Unasked) (w : EventLoop) :
    ∀ piece ∈ (assign sections sources w).1, (Station.fresh piece).At piece := by
  refine assign_forall .segment .absent sections (fun name _ source found => ?_) w
  cases unasked name source found with
  | text text => exact .text text
  | rendering quiet => exact .rendering .same quiet
  | @supply s fresh =>
    have here := Station.At.supply (s := s) [] rfl rfl rfl
    rwa [fresh] at here
  | patches => exact .patches List.not_mem_nil

/-- The ledger of a stream that has not been asked yet. -/
theorem Books.start (t : Template) (unasked : sources.Unasked) (before : EventLoop) {w : EventLoop}
    (still : w.PullsNothing) :
    let s := (start t sources before).1
    Books s.pieces w (s.pieces.map .fresh) [] s w := by
  intro s
  have each : ∀ piece ∈ s.pieces, (Station.fresh piece).At piece :=
    List.forall_mem_cons.2 ⟨.segment _, at_assign t.sections unasked before⟩
  have front : Front (s.pieces.map .fresh) s.pieces := by
    refine ⟨?_, fun station member => ?_⟩
    · rw [List.forall₂_map_left_iff, List.forall₂_same]
      exact each
    · obtain ⟨piece, -, rfl⟩ := List.mem_map.1 (List.mem_of_mem_tail member)
      exact ⟨rfl, rfl, rfl⟩
  refine ⟨⟨?_, ?_, ?_⟩, front.onDemand, fun _ => .front front, still⟩
  · simp [Function.comp_def, Station.fresh]
  · simp [Station.fresh]
  · have none : Ledger.calls (s.pieces.map Station.fresh) = {} := idle_calls fun station member => by
      obtain ⟨piece, -, rfl⟩ := List.mem_map.1 member
      exact ⟨rfl, rfl, rfl⟩
    rw [none, Calls.append_empty]

end TemplateStream

end ProgressiveHtml
