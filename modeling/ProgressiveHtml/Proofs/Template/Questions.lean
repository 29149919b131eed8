import ProgressiveHtml.Proofs.Template.Reference

namespace ProgressiveHtml

/-!
# Template streams — which source is asked in which state

Asking a stream asks the renderings in all slots, each in the state that the one before it leaves, and then
the sequences up to the first that has not finished.  If the sources come to something in the states in
which they are asked, the answer is the next item that is written for them.

* `TemplateStream.drivenIn?`, `TemplateStream.walkedIn?` — the state in which the rendering or the sequence
  in a slot is asked;
* `TemplateStream.askedIn` — the states in which one question to a stream asks the source of a slot;
* `TemplateStream.Drives.writesOn`, `TemplateStream.Walks.writesOn` — what is written when the renderings have
  gone on and when the pieces have been walked over;
* `TemplateStream.writes_poll` — one question to a stream.
-/

/-- What is left of a sequence that comes to the given items, behind an answer. -/
def Sequence.Onward (states : Nat → EventLoop) (left : Sequence) (items : List Item) (count : Nat) :
    Answer → Prop
  | .item (.ok chunk) => ∃ more, items = .ok chunk :: more ∧ left.BringsIn states more count
  | .item (.error error) => items = [.error error]
  | .waiting => left.BringsIn states items count
  | .finished => items = []

namespace TemplateStream

/-- The state in which the rendering in a slot is asked when the renderings of pieces go on, up to the
    first that panics.  Slots are counted from the first piece on. -/
def drivenIn? : List Piece → (slot : Nat) → EventLoop → Option EventLoop
  | [], _, _ => none
  | .segment _ :: rest, slot, w => drivenIn? rest slot w
  | .slot (some (.rendering _)) :: _, 0, w => some w
  | .slot (some (.rendering r)) :: rest, slot + 1, w =>
    match r.poll w with
    | (.panicked _, _) => none
    | (_, w) => drivenIn? rest slot w
  | .slot _ :: _, 0, _ => none
  | .slot _ :: rest, slot + 1, w => drivenIn? rest slot w

/-- The state in which the sequence in a slot is asked when pieces are walked over; no other comes up
    behind one that has not finished, or behind anything else that is not passed. -/
def walkedIn? : List Piece → (slot : Nat) → EventLoop → Option EventLoop
  | [], _, _ => none
  | .segment text :: rest, slot, w => if text.isEmpty then walkedIn? rest slot w else none
  | .slot (some (.sequence _)) :: _, 0, w => some w
  | .slot _ :: _, 0, _ => none
  | .slot none :: rest, slot + 1, w => walkedIn? rest slot w
  | .slot (some (.text text)) :: rest, slot + 1, w =>
    if text.isEmpty then walkedIn? rest slot w else none
  | .slot (some (.rendering (.done markup))) :: rest, slot + 1, w =>
    if markup.isEmpty then walkedIn? rest slot w else none
  | .slot (some (.rendering _)) :: _, _ + 1, _ => none
  | .slot (some (.sequence s)) :: rest, slot + 1, w =>
    match s.poll w with
    | (.finished, s, w) => walkedIn? rest slot (s.release w)
    | _ => none

/-- The states in which the source of a slot is asked when a stream is asked in a given state. -/
def askedIn (s : TemplateStream) (slot : Nat) (w : EventLoop) : List EventLoop :=
  if s.finished || slot < s.position then []
  else (drivenIn? s.pieces (slot - s.position) w).toList ++
    match drive s.pieces w with
    | (.ok left, w) => (walkedIn? left (slot - s.position) w).toList
    | (.error _, _) => []

/-- Given states begin with those that have come up. -/
def Opens (asked : List EventLoop) (states : Nat → EventLoop) : Prop :=
  ∀ k v, asked[k]? = some v → states k = v

/-- What is left of given states when some have come up. -/
def after (asked : List EventLoop) (states : Nat → EventLoop) : Nat → EventLoop :=
  fun n => states (n + asked.length)

@[simp] theorem after_nil (states : Nat → EventLoop) : after [] states = states := rfl

theorem after_append (asked more : List EventLoop) (states : Nat → EventLoop) :
    after (asked ++ more) states = after more (after asked states) := by
  funext n
  rw [after, after, after, List.length_append]
  congr 1
  omega

theorem opens_append {asked more : List EventLoop} {states : Nat → EventLoop} :
    Opens (asked ++ more) states ↔ Opens asked states ∧ Opens more (after asked states) := by
  constructor
  · refine fun opens => ⟨fun k v isAsked => opens k v ?_, fun k v isAsked => opens _ v ?_⟩
    · exact List.getElem?_append_left (List.getElem?_eq_some_iff.1 isAsked).1 ▸ isAsked
    · rw [List.getElem?_append_right (Nat.le_add_left _ _), Nat.add_sub_cancel]
      exact isAsked
  · rintro ⟨first, later⟩ k v isAsked
    by_cases early : k < asked.length
    · exact first k v (List.getElem?_append_left early ▸ isAsked)
    · rw [List.getElem?_append_right (Nat.le_of_not_lt early)] at isAsked
      have there := later _ v isAsked
      rwa [after, Nat.sub_add_cancel (Nat.le_of_not_lt early)] at there

/-- Given states begin with the only one that has come up. -/
theorem opens_toList {state? : Option EventLoop} {states : Nat → EventLoop} :
    Opens state?.toList states ↔ ∀ v ∈ state?, states 0 = v := by
  cases state? with
  | none => exact ⟨nofun, nofun⟩
  | some w =>
    refine ⟨?_, fun here k v isAsked => ?_⟩
    · rintro opens _ ⟨⟩
      exact opens 0 w rfl
    · cases k with
      | zero => exact here v isAsked
      | succ k => cases isAsked

variable {pieces left rest : List Piece} {r : Rendering} {w w' : EventLoop} {position count : Nat}
  {states : Nat → Nat → EventLoop} {outs : List (List Item)}

/-- The slots behind a rendering that does not panic. -/
theorem drivenIn?_cons_rendering (sound : ∀ message, (r.poll w).1 ≠ .panicked message)
    (rest : List Piece) (slot : Nat) :
    drivenIn? (.slot (some (.rendering r)) :: rest) (slot + 1) w = drivenIn? rest slot (r.poll w).2 := by
  rw [drivenIn?]
  split <;> rename_i stands <;> rw [stands] at sound ⊢
  exact absurd rfl (sound _)

theorem Drives.length_eq (drives : Drives pieces w left w') : left.length = pieces.length := by
  induction drives with
  | nil => rfl
  | rendering _ _ ih | other _ _ ih => rw [List.length_cons, List.length_cons, ih]

/-- When the renderings have gone on, the same is written, and it takes fewer questions if the first piece
    is a rendering that is not over. -/
theorem Drives.writesOn (drives : Drives pieces w left w') (writes : Writes states pieces outs count)
    (asked : ∀ slot, ∀ v ∈ drivenIn? pieces slot w, states slot 0 = v) :
    ∃ later ≤ count,
      Writes (fun slot => after (drivenIn? pieces slot w).toList (states slot)) left outs later ∧
      ∀ r rest, left = .slot (some (.rendering r)) :: rest → r.isOver = false → later < count := by
  induction drives generalizing states outs count with
  | nil =>
    cases writes
    exact ⟨0, Nat.le_refl 0, .nil _, nofun⟩
  | @rendering r rest left w _ sound _ ih =>
    obtain _ | _ | _ | ⟨comes, behind⟩ := writes
    cases comes with
    | @rendering _ result first ends =>
      have here : states 0 0 = w := asked 0 w rfl
      obtain ⟨sooner, fewer, ends, waits⟩ := ends.next
      rw [here] at ends waits
      have placed (slot : Nat) := drivenIn?_cons_rendering sound rest slot
      obtain ⟨later, less, writes, -⟩ := ih behind fun slot v isAsked =>
        asked (slot + 1) v (placed slot ▸ isAsked)
      refine ⟨sooner + later, Nat.add_le_add fewer less, .source (.rendering ends) ?_, ?_⟩
      · simpa only [placed] using writes
      · rintro _ _ ⟨⟩ onItsWay
        exact Nat.add_lt_add_of_lt_of_le (waits onItsWay) less
  | @other piece rest left w _ unfilled _ ih =>
    cases writes with
    | segment text behind =>
      obtain ⟨later, less, writes, -⟩ := ih behind fun slot => asked slot
      exact ⟨later, less, .segment text writes, nofun⟩
    | absent behind =>
      obtain ⟨later, less, writes, -⟩ := ih behind fun slot => asked (slot + 1)
      exact ⟨later, less, .absent writes, nofun⟩
    | source comes behind =>
      cases comes with
      | text plain =>
        obtain ⟨later, less, writes, -⟩ := ih behind fun slot => asked (slot + 1)
        exact ⟨_, Nat.add_le_add_left less _, .source (.text plain) writes, nofun⟩
      | rendering => cases unfilled
      | sequence ends =>
        obtain ⟨later, less, writes, -⟩ := ih behind fun slot => asked (slot + 1)
        exact ⟨_, Nat.add_le_add_left less _, .source (.sequence ends) writes, nofun⟩

/-- What no rendering that comes to something does is panic. -/
theorem Writes.not_panics {message : String} (writes : Writes states pieces outs count)
    (asked : ∀ slot, ∀ v ∈ drivenIn? pieces slot w, states slot 0 = v) :
    ¬Panics pieces w message w' := by
  intro panics
  induction panics generalizing states outs count with
  | here panics =>
    obtain _ | _ | _ | ⟨comes, -⟩ := writes
    cases comes with
    | rendering ends =>
      obtain ⟨_, -, ends, -⟩ := ends.next
      rw [asked 0 _ rfl] at ends
      exact ends.not_panicked _ panics
  | @rendering r rest w _ _ sound _ ih =>
    obtain _ | _ | _ | ⟨-, behind⟩ := writes
    exact ih behind fun slot v isAsked =>
      asked (slot + 1) v (drivenIn?_cons_rendering sound rest slot ▸ isAsked)
  | other unfilled _ ih =>
    cases writes with
    | segment text behind => exact ih behind fun slot => asked slot
    | absent behind => exact ih behind fun slot => asked (slot + 1)
    | source comes behind =>
      cases comes with
      | text | sequence => exact ih behind fun slot => asked (slot + 1)
      | rendering => cases unfilled

/-- No time passes until a rendering or a sequence is asked. -/
theorem now_of_drivenIn? {slot : Nat} {v : EventLoop} (isAsked : v ∈ drivenIn? pieces slot w) :
    v.now = w.now := by
  fun_induction drivenIn? pieces slot w with
  | case1 | case4 | case6 => cases isAsked
  | case2 _ _ _ _ ih | case7 _ _ _ _ _ ih => exact ih isAsked
  | case3 =>
    cases isAsked
    rfl
  | case5 r _ _ w _ _ _ asked ih => exact (ih isAsked).trans (by rw [← r.poll_now w, asked])

theorem now_of_walkedIn? {slot : Nat} {v : EventLoop} (isAsked : v ∈ walkedIn? pieces slot w) :
    v.now = w.now := by
  fun_induction walkedIn? pieces slot w with
  | case1 | case3 | case5 | case8 | case10 | case11 | case13 => cases isAsked
  | case2 _ _ _ _ _ ih | case7 _ _ _ _ _ ih | case9 _ _ _ _ _ ih | case6 _ _ _ ih => exact ih isAsked
  | case4 =>
    cases isAsked
    rfl
  | case12 _ _ _ _ s _ asked ih =>
    rw [ih isAsked, s.release_now]
    exact Sequence.now_of_poll asked

/-- What a question to a stream has come to, when it left the stream at `position`: the stream has ended, and
    everything is written; or the item of the answer is written before what is left.  In `asked` stand the
    states in which the sources were asked. -/
inductive WritesOn (states : Nat → Nat → EventLoop) (outs : List (List Item)) (position : Nat)
    (asked : Nat → List EventLoop) (count : Nat) (answer : StreamPoll TemplateStream) : Prop
  | ended {next : TemplateStream} (onward : answer.next? = some next) (finished : next.finished = true)
      (all : answer.items = Item.upToError outs.flatten)
  | goesOn {next : TemplateStream} (onward : answer.next? = some next) (goesOn : next.finished = false)
      {passed later : Nat} {others : List (List Item)} (stands : next.position = position + passed)
      (writes : Writes (fun slot => after (asked (slot + passed)) (states (slot + passed))) next.pieces
        others later)
      (all : answer.items ++ Item.upToError others.flatten = Item.upToError outs.flatten)
      (further : later + next.pieces.length < count)

/-- A question that leaves the stream where it stands. -/
theorem WritesOn.stays {states : Nat → Nat → EventLoop} {asked : Nat → List EventLoop} {later : Nat}
    {answer : StreamPoll TemplateStream} {next : TemplateStream} {others : List (List Item)}
    (onward : answer.next? = some next) (running : next.finished = false)
    (stands : next.position = position)
    (writes : Writes (fun slot => after (asked slot) (states slot)) next.pieces others later)
    (all : answer.items ++ Item.upToError others.flatten = Item.upToError outs.flatten)
    (further : later + next.pieces.length < count) : WritesOn states outs position asked count answer :=
  .goesOn onward running (show next.position = position + 0 from stands) writes all further

/-- A part is passed for which nothing is written, with the number of slots that it takes up. -/
theorem WritesOn.pass {slots : Nat} {states : Nat → Nat → EventLoop} {asked : Nat → List EventLoop}
    {answer : StreamPoll TemplateStream}
    (on : WritesOn (fun slot => states (slot + slots)) outs (position + slots)
      (fun slot => asked (slot + slots)) count answer) :
    WritesOn states ([] :: outs) position asked count answer := by
  cases on with
  | ended onward finished all => exact .ended onward finished all
  | @goesOn next onward goesOn passed _ _ stands writes all further =>
    have there : next.position = position + (passed + slots) := by omega
    refine .goesOn onward goesOn there ?_ all further
    simpa only [Nat.add_assoc] using writes

section

variable {piece : Piece} {slots : Nat}

/-- Behind a blank piece the walk goes on. -/
theorem walkedIn?_of_blank (isBlank : piece.Blank slots) (rest : List Piece) (slot : Nat)
    (w : EventLoop) : walkedIn? (piece :: rest) (slot + slots) w = walkedIn? rest slot w := by
  cases isBlank with
  | segment isEmpty | text isEmpty | markup isEmpty => exact if_pos isEmpty
  | absent => rfl

/-- Behind a piece that is written it does not. -/
theorem walkedIn?_of_written {chunk : Chunk} (isWritten : piece.Written slots chunk) (rest : List Piece)
    (slot : Nat) (w : EventLoop) : walkedIn? (piece :: rest) slot w = none := by
  cases isWritten with
  | segment filled => exact if_neg filled
  | text filled | markup filled =>
    cases slot with
    | zero => rfl
    | succ slot => exact if_neg filled

/-- Nor does it behind a rendering that is not there. -/
theorem walkedIn?_of_not_done (notDone : ∀ markup, r ≠ .done markup) (rest : List Piece) (slot : Nat)
    (w : EventLoop) : walkedIn? (.slot (some (.rendering r)) :: rest) slot w = none := by
  cases slot with
  | zero => rfl
  | succ slot =>
    cases r with
    | done markup => exact absurd rfl (notDone markup)
    | _ => rfl

/-- Behind a sequence that has not finished none is asked. -/
theorem walkedIn?_of_goesOn {s s' : Sequence} {answer : Answer} (asked : s.poll w = (answer, s', w'))
    (goesOn : answer ≠ .finished) (rest : List Piece) (slot : Nat) :
    walkedIn? (.slot (some (.sequence s)) :: rest) (slot + 1) w = none := by
  rw [walkedIn?, asked]
  cases answer with
  | finished => exact absurd rfl goesOn
  | _ => rfl

theorem walkedIn?_of_finished {s s' : Sequence} (asked : s.poll w = (.finished, s', w'))
    (rest : List Piece) (slot : Nat) : walkedIn? (.slot (some (.sequence s)) :: rest) (slot + 1) w =
      walkedIn? rest slot (s'.release w') := by
  rw [walkedIn?, asked]

/-- Nothing is written for a blank piece. -/
theorem Writes.of_blank (isBlank : piece.Blank slots) (writes : Writes states (piece :: rest) outs count) :
    ∃ others, outs = [] :: others ∧
      ∃ later ≤ count, Writes (fun slot => states (slot + slots)) rest others later := by
  cases isBlank with
  | segment isEmpty =>
    obtain _ | ⟨_, behind⟩ := writes
    exact ⟨_, by rw [Chunk.literals, if_pos isEmpty]; rfl, count, Nat.le_refl _, behind⟩
  | absent =>
    obtain _ | _ | behind := writes
    exact ⟨_, rfl, count, Nat.le_refl _, behind⟩
  | text isEmpty =>
    obtain _ | _ | _ | ⟨comes, behind⟩ := writes
    cases comes
    exact ⟨_, by rw [Yield.written, Chunk.contents, if_pos isEmpty]; rfl, _, Nat.le_add_left _ _, behind⟩
  | markup isEmpty =>
    obtain _ | _ | _ | ⟨comes, behind⟩ := writes
    cases comes with
    | rendering ends =>
      obtain rfl := (ends.of_isOver rfl).1 _ rfl
      exact ⟨_, by rw [Yield.written, Chunk.contents, if_pos isEmpty]; rfl, _, Nat.le_add_left _ _, behind⟩

/-- For a piece that is a chunk this chunk is written. -/
theorem Writes.of_written {chunk : Chunk} (isWritten : piece.Written slots chunk)
    (writes : Writes states (piece :: rest) outs count) : ∃ others, outs = [.ok chunk] :: others ∧
      ∃ later ≤ count, Writes (fun slot => states (slot + slots)) rest others later := by
  cases isWritten with
  | segment filled =>
    obtain _ | ⟨_, behind⟩ := writes
    exact ⟨_, by rw [Chunk.literals, if_neg filled]; rfl, count, Nat.le_refl _, behind⟩
  | text filled =>
    obtain _ | _ | _ | ⟨comes, behind⟩ := writes
    cases comes
    exact ⟨_, by rw [Yield.written, Chunk.contents, if_neg filled]; rfl, _, Nat.le_add_left _ _, behind⟩
  | markup filled =>
    obtain _ | _ | _ | ⟨comes, behind⟩ := writes
    cases comes with
    | rendering ends =>
      obtain rfl := (ends.of_isOver rfl).1 _ rfl
      exact ⟨_, by rw [Yield.written, Chunk.contents, if_neg filled]; rfl, _, Nat.le_add_left _ _, behind⟩

end

/-- A sequence that is asked brings the first of its items, waits, or has finished. -/
theorem Writes.of_sequence {s : Sequence} {answer : Answer} {s' : Sequence}
    (asked : s.poll w = (answer, s', w')) (here : states 0 0 = w)
    (writes : Writes states (.slot (some (.sequence s)) :: rest) outs count) :
    ∃ items others first later, outs = items :: others ∧ count = first + 1 + later ∧
      Writes (fun slot => states (slot + 1)) rest others later ∧
      s'.Onward (fun n => states 0 (n + 1)) items first answer := by
  obtain _ | _ | _ | ⟨comes, behind⟩ := writes
  cases comes with
  | sequence ends =>
    subst here
    cases ends with
    | finished polled | error polled =>
      obtain ⟨rfl, -⟩ := Prod.mk.inj (asked.symm.trans polled)
      exact ⟨_, _, 0, _, rfl, rfl, behind, rfl⟩
    | waiting polled later =>
      obtain ⟨rfl, same⟩ := Prod.mk.inj (asked.symm.trans polled)
      obtain ⟨rfl, -⟩ := Prod.mk.inj same
      exact ⟨_, _, _, _, rfl, rfl, behind, later⟩
    | chunk polled later =>
      obtain ⟨rfl, same⟩ := Prod.mk.inj (asked.symm.trans polled)
      obtain ⟨rfl, -⟩ := Prod.mk.inj same
      exact ⟨_, _, _, _, rfl, rfl, behind, _, rfl, later⟩

/-- Walking over pieces brings the next item that is written for them, or comes to the end.  It takes a
    question or a piece off what is still to come, unless it stays at a rendering that is not over. -/
theorem Walks.writesOn {result : StreamPoll TemplateStream × EventLoop} {total : Nat}
    (walks : Walks pieces position w result) (writes : Writes states pieces outs count)
    (asked : ∀ slot, ∀ v ∈ walkedIn? pieces slot w, states slot 0 = v)
    (enough : count + pieces.length ≤ total)
    (waits : ∀ r rest, pieces = .slot (some (.rendering r)) :: rest → r.isOver = false →
      count + pieces.length < total) :
    WritesOn states outs position (fun slot => (walkedIn? pieces slot w).toList) total result.1 := by
  induction walks generalizing states outs count with
  | ended =>
    cases writes
    exact .ended rfl rfl rfl
  | @blank piece slots rest position w result isBlank _ ih =>
    have placed (slot : Nat) := walkedIn?_of_blank isBlank rest slot w
    obtain ⟨others, rfl, later, less, writes⟩ := writes.of_blank isBlank
    rw [List.length_cons] at enough
    have on := ih writes (fun slot v isAsked => asked (slot + slots) v (placed slot ▸ isAsked))
      (by omega) fun _ _ _ _ => by omega
    simp only [← placed] at on
    exact on.pass
  | @written piece slots chunk isWritten rest position w =>
    obtain ⟨others, rfl, later, less, writes⟩ := writes.of_written isWritten
    rw [List.length_cons] at enough
    have further : later + rest.length < total := by omega
    refine .goesOn rfl rfl rfl ?_ rfl further
    simpa only [walkedIn?_of_written isWritten, Option.toList_none, after_nil] using writes
  | failed error rest =>
    obtain _ | _ | _ | ⟨comes, behind⟩ := writes
    cases comes with
    | rendering ends =>
      obtain rfl := (ends.of_isOver rfl).2 _ rfl
      exact .ended rfl rfl rfl
  | @pending r notDone notFailed rest position w =>
    have onItsWay : r.isOver = false := by
      obtain _ | _ | _ | ⟨comes, -⟩ := writes
      cases comes with
      | rendering ends => exact Rendering.isOver_eq_false notDone notFailed ends.not_panicked
    refine .stays rfl rfl rfl ?_ rfl (waits r rest rfl onItsWay)
    simpa only [walkedIn?_of_not_done notDone, Option.toList_none, after_nil] using writes
  | @item s s' chunk w w' polled rest position =>
    have here : states 0 0 = w := asked 0 w rfl
    obtain ⟨items, others, first, later, rfl, rfl, behind, more, rfl, ends⟩ :=
      writes.of_sequence polled here
    have further : first + later + (rest.length + 1) < total := by
      rw [List.length_cons] at enough
      omega
    refine .stays rfl rfl rfl (.source (.sequence ends) ?_) rfl further
    simpa only [walkedIn?_of_goesOn polled nofun, Option.toList_none, after_nil] using behind
  | @error s s' error w w' polled rest position =>
    have here : states 0 0 = w := asked 0 w rfl
    obtain ⟨items, others, first, later, rfl, rfl, behind, rfl⟩ := writes.of_sequence polled here
    exact .ended rfl rfl rfl
  | @finished s s' rest position w w' result polled _ ih =>
    have here : states 0 0 = w := asked 0 w rfl
    have placed (slot : Nat) := walkedIn?_of_finished polled rest slot
    obtain ⟨items, others, first, later, rfl, rfl, behind, rfl⟩ := writes.of_sequence polled here
    rw [List.length_cons] at enough
    have on := ih behind (fun slot v isAsked => asked (slot + 1) v (placed slot ▸ isAsked))
      (by omega) fun _ _ _ _ => by omega
    simp only [← placed] at on
    exact on.pass
  | @waiting s s' w w' polled rest position =>
    have here : states 0 0 = w := asked 0 w rfl
    obtain ⟨items, others, first, later, rfl, rfl, behind, ends⟩ := writes.of_sequence polled here
    have further : first + later + (rest.length + 1) < total := by
      rw [List.length_cons] at enough
      omega
    refine .stays rfl rfl rfl (.source (.sequence ends) ?_) rfl further
    simpa only [walkedIn?_of_goesOn polled nofun, Option.toList_none, after_nil] using behind

/-- States that come up after others. -/
theorem WritesOn.of_after {first more : Nat → List EventLoop} {answer : StreamPoll TemplateStream}
    (on : WritesOn (fun slot => after (first slot) (states slot)) outs position more count answer) :
    WritesOn states outs position (fun slot => first slot ++ more slot) count answer := by
  cases on with
  | ended onward finished all => exact .ended onward finished all
  | goesOn onward goesOn stands writes all further =>
    refine .goesOn onward goesOn stands ?_ all further
    simpa only [after_append] using writes

variable {s : TemplateStream}

/-- The states in which the sources of a stream that has not ended are asked. -/
theorem askedIn_of_drives (running : s.finished = false) (drives : Drives s.pieces w left w')
    (slot : Nat) : askedIn s (s.position + slot) w =
      (drivenIn? s.pieces slot w).toList ++ (walkedIn? left slot w').toList := by
  rw [askedIn, if_neg (by simp [running]), drives.drive, Nat.add_sub_cancel_left]

theorem askedIn_of_panics {message : String} (running : s.finished = false)
    (panics : Panics s.pieces w message w') (slot : Nat) :
    askedIn s (s.position + slot) w = (drivenIn? s.pieces slot w).toList := by
  rw [askedIn, if_neg (by simp [running]), panics.drive, Nat.add_sub_cancel_left, List.append_nil]

/-- All in one question happens at one time. -/
theorem now_of_askedIn {slot : Nat} {v : EventLoop} (isAsked : v ∈ askedIn s slot w) : v.now = w.now := by
  unfold askedIn at isAsked
  split at isAsked
  · cases isAsked
  · obtain isDriven | isWalked := List.mem_append.1 isAsked
    · exact now_of_drivenIn? (Option.mem_toList.1 isDriven)
    · obtain ⟨left, w', drives⟩ | ⟨message, w', panics⟩ := drives_or_panics s.pieces w
      · rw [drives.drive] at isWalked
        exact (now_of_walkedIn? (Option.mem_toList.1 isWalked)).trans drives.now
      · rw [panics.drive] at isWalked
        cases isWalked

/-- Asking a stream whose sources come to something brings the next item that is written for them, or comes
    to the end.  Either a question or a piece is taken off what is still to come. -/
theorem writes_poll (running : s.finished = false) (writes : Writes states s.pieces outs count)
    (asked : ∀ slot, Opens (askedIn s (s.position + slot) w) (states slot)) :
    WritesOn states outs s.position (fun slot => askedIn s (s.position + slot) w)
      (count + s.pieces.length) (s.poll w).1 := by
  obtain ⟨left, w', drives⟩ | ⟨message, w', panics⟩ := drives_or_panics s.pieces w
  · simp only [askedIn_of_drives running drives, opens_append, opens_toList] at asked ⊢
    obtain ⟨later, less, writes, sooner⟩ := drives.writesOn writes fun slot => (asked slot).1
    have length := drives.length_eq
    refine ((drives.walks_poll running).writesOn writes (fun slot => (asked slot).2) ?_ ?_).of_after
    · omega
    · intro r rest isFront onItsWay
      have fewer := sooner r rest isFront onItsWay
      omega
  · simp only [askedIn_of_panics running panics, opens_toList] at asked
    exact absurd panics (writes.not_panics asked)

end TemplateStream

end ProgressiveHtml
