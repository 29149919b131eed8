import ProgressiveHtml.Proofs.EventLoop.Apart
import ProgressiveHtml.Proofs.Reader.Steady
import ProgressiveHtml.Proofs.Rendering.Panics

namespace ProgressiveHtml

/-!
# Template streams — what stands in front

Of two streams the first has all the pieces of the second and more behind them.  The renderings behind go
on whenever the first stream is asked, but nothing that is asked in front notices them, provided that late
fragments belong to one side only: asked at the same instants, both streams answer the same until the second
one ends.

* `Piece.Same` — corresponding pieces of two runs, with `TemplateStream.Drives.same`;
* `TemplateStream.Calm`, `TemplateStream.Keeping` — pieces that cannot panic, and that keep to contents of
  their own;
* `TemplateStream.InFront` — a stream and one with more behind it;
* `TemplateStream.Agree`, `TemplateStream.InFront.poll` — what comes of asking both;
* `TemplateStream.InFront.poll_behind` — what comes of asking the first alone while the second waits.
-/

open Rendering EventLoop

/-! ### Corresponding pieces -/

/-- A supply and the same one of another run, asked at the same instants. -/
structure Supply.Alike (s s' : Supply) : Prop where
  items : List.Forall₂ (fun entry entry' => entry.1.Alike 0 entry'.1 ∧ entry.2 = entry'.2)
    s.items s'.items
  never : s.never = s'.never

/-- Supplies that are alike give the same answer at the same instant. -/
theorem Supply.Alike.poll {s s' : Supply} (alike : s.Alike s') {t t' : Timeline} (present : t.now = t'.now) :
    (s.poll t).1 = (s'.poll t').1 ∧ (s.poll t).2.1.Alike (s'.poll t').2.1 := by
  obtain ⟨name, asked, items, never⟩ := s
  obtain ⟨name', asked', items', never'⟩ := s'
  obtain ⟨entries, rfl : never = never'⟩ := alike
  replace entries : List.Forall₂ _ items items' := entries
  unfold Supply.poll
  cases entries with
  | nil => exact ⟨rfl, .nil, rfl⟩
  | @cons entry entry' rest rest' first others =>
    obtain ⟨sleep, item⟩ := entry
    obtain ⟨sleep', item'⟩ := entry'
    obtain ⟨sleeps, rfl : item = item'⟩ := first
    have polled : Option.Rel (Sleep.Alike 0)
        (sleep.poll (Supply.ask ⟨name, asked, (sleep, item) :: rest, never⟩ t)).1
        (sleep'.poll (Supply.ask ⟨name', asked', (sleep', item) :: rest', never⟩ t')).1 :=
      sleeps.poll (by simpa using present)
    dsimp only
    rcases slept : sleep.poll _ with ⟨left, later⟩
    rcases slept' : sleep'.poll _ with ⟨left', later'⟩
    rw [slept, slept'] at polled
    cases polled with
    | none => exact ⟨rfl, others, rfl⟩
    | some left => exact ⟨rfl, .cons ⟨left, rfl⟩ others, rfl⟩

/-- Asking a supply starts at most new sleeps. -/
theorem Supply.sleeps_poll (s : Supply) (t : Timeline) : t.sleeps ≤ (s.poll t).2.2.sleeps := by
  have asked : (s.ask t).sleeps = t.sleeps := by
    unfold ask
    split <;> rfl
  rw [← asked, poll]
  split
  · split <;> exact Nat.le_refl _
  · rename_i sleep item rest _
    have slept := sleep.sleeps_poll (s.ask t)
    split <;> rename_i polled <;> rw [polled] at slept <;> exact slept

/-- A sequence and the same one of another run; the drain of the registry where late fragments are shared. -/
inductive Sequence.Same (shared : Bool) : Sequence → Sequence → Prop
  | supply {s s' : Supply} (alike : s.Alike s') : Same shared (.supply s) (.supply s')
  | patches (isShared : shared = true) : Same shared .patches .patches

namespace Names.Apart

variable {shared : Bool} {N : Names} {own : Nat → Prop} {w v : EventLoop} {s s' : Sequence}

/-- The same sequence is asked in both runs. -/
theorem ask (apart : N.Apart shared own w v) (same : s.Same shared s') :
    (s.poll w).1 = (s'.poll v).1 ∧ (s.poll w).2.1.Same shared (s'.poll v).2.1 ∧
      N.Apart shared own (s.poll w).2.2 (s'.poll v).2.2 := by
  cases same with
  | @supply s s' alike =>
    obtain ⟨answer, left⟩ := alike.poll (show w.timeline.now = v.timeline.now from apart.now)
    refine ⟨answer, .supply left, apart.unnoticed (.aside (s.poll_now w.timeline) rfl rfl rfl)
      (.aside (s'.poll_now v.timeline) rfl rfl rfl) (s.sleeps_poll _) (s'.sleeps_poll _) ?_⟩
    exact apart.synced.registry
  | patches isShared =>
    subst isShared
    obtain ⟨answers, later⟩ := apart.drain
    exact ⟨answers, .patches rfl, later⟩

/-- The same sequence is given up in both runs. -/
theorem release (apart : N.Apart shared own w v) (same : s.Same shared s') :
    N.Apart shared own (s.release w) (s'.release v) := by
  cases same with
  | supply => exact apart
  | patches isShared =>
    subst isShared
    exact apart.close

end Names.Apart

/-- A piece and the same one of another run, where the contents and the sleeps in `N` correspond. -/
inductive Piece.Same (shared : Bool) (N : Names) : Piece → Piece → Prop
  | segment (text : String) : Same shared N (.segment text) (.segment text)
  | absent : Same shared N (.slot none) (.slot none)
  | text (text : String) : Same shared N (.slot (some (.text text))) (.slot (some (.text text)))
  | rendering {r r' : Rendering} (same : r.Same shared N r') :
      Same shared N (.slot (some (.rendering r))) (.slot (some (.rendering r')))
  | sequence {s s' : Sequence} (same : s.Same shared s') :
      Same shared N (.slot (some (.sequence s))) (.slot (some (.sequence s')))

namespace Piece.Same

variable {shared : Bool} {N N' : Names} {piece piece' : Piece}

/-- What is the same stays so under more names. -/
theorem mono (same : Piece.Same shared N piece piece') (within : N.Within N') :
    Piece.Same shared N' piece piece' := by
  cases same with
  | segment text => exact .segment text
  | absent => exact .absent
  | text text => exact .text text
  | rendering same => exact .rendering (same.mono within)
  | sequence same => exact .sequence same

/-- Where no rendering fills one of them, none fills the other. -/
theorem rendering?_eq_none (same : Piece.Same shared N piece piece') (unfilled : piece.rendering? = none) :
    piece'.rendering? = none := by
  cases same with
  | rendering => cases unfilled
  | _ => rfl

/-- A drain in front has to do with late fragments. -/
theorem isShared (same : Piece.Same shared N piece piece')
    (drain : piece = .slot (some (.sequence .patches))) : shared = true := by
  subst drain
  cases same with
  | sequence same =>
    cases same with
    | patches isShared => exact isShared

end Piece.Same

namespace TemplateStream

/-! ### The renderings go on -/

section

variable {shared : Bool} {N : Names} {own : Nat → Prop} {pieces pieces' left : List Piece}
  {w w' v : EventLoop}

/-- The renderings of corresponding pieces go on in the same way. -/
theorem Drives.same (drives : Drives pieces w left w')
    (same : List.Forall₂ (Piece.Same shared N) pieces pieces') (apart : N.Apart shared own w v) :
    ∃ N' left' v', Drives pieces' v left' v' ∧ N.Within N' ∧ N'.Apart shared own w' v' ∧
      List.Forall₂ (Piece.Same shared N') left left' := by
  induction drives generalizing N pieces' v with
  | nil w =>
    cases same
    exact ⟨N, [], v, .nil v, .refl N, apart, .nil⟩
  | @rendering r _ _ w _ sound _ ih =>
    cases same with
    | cons first others =>
      cases first with
      | @rendering _ r' same =>
        obtain ⟨N', within, apart, kept⟩ := apart.poll same
        obtain ⟨N'', left', v', drives, withinToo, apart, lefts⟩ :=
          ih (others.imp fun _ _ same => same.mono within) apart
        refine ⟨N'', _, v', .rendering (fun message panics => ?_) drives, within.trans withinToo, apart,
          .cons (.rendering (kept.mono withinToo)) lefts⟩
        -- The other rendering would panic with the same message.
        exact sound message (kept.endsLike.panicked_iff.2 panics)
  | other unfilled _ ih =>
    cases same with
    | cons first others =>
      obtain ⟨N', left', v', drives, within, apart, lefts⟩ := ih others apart
      exact ⟨N', _, v', .other (first.rendering?_eq_none unfilled) drives, within, apart,
        .cons (first.mono within) lefts⟩

/-- And so they do up to the same panic. -/
theorem Panics.same {message : String} (panics : Panics pieces w message w')
    (same : List.Forall₂ (Piece.Same shared N) pieces pieces') (apart : N.Apart shared own w v) :
    ∃ v', Panics pieces' v message v' := by
  induction panics generalizing N pieces' v with
  | here panics =>
    cases same with
    | cons first others =>
      cases first with
      | rendering same =>
        obtain ⟨N', -, -, kept⟩ := apart.poll same
        exact ⟨_, .here (kept.endsLike.panicked_iff.1 panics) _⟩
  | rendering sound _ ih =>
    cases same with
    | cons first others =>
      cases first with
      | rendering same =>
        obtain ⟨N', within, apart, kept⟩ := apart.poll same
        obtain ⟨v', panics⟩ := ih (others.imp fun _ _ same => same.mono within) apart
        exact ⟨v', .rendering
          (fun message panics => sound message (kept.endsLike.panicked_iff.2 panics)) panics⟩
  | other unfilled _ ih =>
    cases same with
    | cons first others =>
      obtain ⟨v', panics⟩ := ih others apart
      exact ⟨v', .other (first.rendering?_eq_none unfilled) panics⟩

/-- The renderings among pieces keep to contents of their own. -/
def Keeping (handsIn : Bool) (own : Nat → Prop) (pieces : List Piece) : Prop :=
  ∀ r ∈ Piece.renderings pieces, r.KeepsTo handsIn own

theorem Keeping.mono {handsIn : Bool} {own' : Nat → Prop} (keeping : Keeping handsIn own pieces)
    (within : ∀ cell, own cell → own' cell) : Keeping handsIn own' pieces :=
  fun r member => (keeping r member).mono within

/-- Renderings that keep to contents of their own go on in the first run only. -/
theorem Keeping.drives (keeping : Keeping (!shared) own pieces) (drives : Drives pieces w left w')
    (apart : N.Apart shared own w v) : ∃ own', (∀ cell, own cell → own' cell) ∧ w'.now = w.now ∧
      N.Apart shared own' w' v ∧ Keeping (!shared) own' left := by
  induction drives generalizing own with
  | nil w => exact ⟨own, fun _ => id, rfl, apart, keeping⟩
  | @rendering r _ left w _ _ _ ih =>
    rw [Keeping, Piece.renderings_cons_rendering, List.forall_mem_cons] at keeping
    obtain ⟨own', goesOn, kept⟩ := keeping.1.poll w
    obtain ⟨own'', within, now, apart, others⟩ := ih (Keeping.mono keeping.2 goesOn.within)
      (apart.elsewhere goesOn (apart.orderly.poll r))
    refine ⟨own'', fun cell mine => within cell (goesOn.within cell mine), now.trans goesOn.now, apart, ?_⟩
    rw [Keeping, Piece.renderings_cons_rendering]
    exact List.forall_mem_cons.2 ⟨kept.mono within, others⟩
  | other unfilled _ ih =>
    rw [Keeping, Piece.renderings_cons_of_none unfilled] at keeping
    obtain ⟨own', within, now, apart, others⟩ := ih keeping apart
    refine ⟨own', within, now, apart, ?_⟩
    rw [Keeping, Piece.renderings_cons_of_none unfilled]
    exact others

end

end TemplateStream

/-! ### What does not panic -/

namespace TemplateStream

/-- No rendering among pieces can panic. -/
def Calm (pieces : List Piece) : Prop := ∀ r ∈ Piece.renderings pieces, ¬r.MayPanic

/-- Renderings that cannot panic go on, and cannot panic later. -/
theorem Calm.drives {pieces : List Piece} (calm : Calm pieces) (w : EventLoop) :
    ∃ left w', Drives pieces w left w' ∧ Calm left := by
  induction pieces generalizing w with
  | nil => exact ⟨[], w, .nil w, calm⟩
  | cons piece rest ih =>
    have behind : Calm rest := fun r member => calm r (Piece.mem_renderings_cons member)
    obtain ⟨r, rfl⟩ | ⟨unfilled, none⟩ := piece.rendering_cases
    · have sound : ¬(r.poll w).1.MayPanic := fun may => calm r List.mem_cons_self (.poll w may)
      have goesOn (message : String) : (r.poll w).1 ≠ .panicked message := fun same =>
        sound (same ▸ .panicked message)
      obtain ⟨left, w', drives, others⟩ := ih behind (r.poll w).2
      exact ⟨_, w', .rendering goesOn drives, List.forall_mem_cons.2 ⟨sound, others⟩⟩
    · obtain ⟨left, w', drives, others⟩ := ih behind w
      refine ⟨_, w', .other unfilled drives, ?_⟩
      rwa [Calm, none]

/-- Walking over pieces does not panic, and nothing new comes to what is left. -/
theorem Walks.exists_next {pieces : List Piece} {position : Nat} {w : EventLoop}
    {result : StreamPoll TemplateStream × EventLoop} (walks : Walks pieces position w result) :
    ∃ next, result.1.next? = some next ∧
      ∀ r ∈ Piece.renderings next.pieces, r ∈ Piece.renderings pieces := by
  induction walks with
  | ended | pending | item | error | waiting => exact ⟨_, rfl, fun _ => id⟩
  | written => exact ⟨_, rfl, fun r => Piece.mem_renderings_cons⟩
  | failed _ rest =>
    exact ⟨_, rfl, fun r (member : r ∈ Piece.renderings rest) => Piece.mem_renderings_cons member⟩
  | blank _ _ ih | finished _ _ ih =>
    obtain ⟨next, onward, among⟩ := ih
    exact ⟨next, onward, fun r member => Piece.mem_renderings_cons (among r member)⟩

/-- A stream that goes on and of which nothing can panic. -/
def Unpanicking (answer : StreamPoll TemplateStream) : Prop :=
  ∃ next, answer.next? = some next ∧ Calm next.pieces

theorem Calm.walk {pieces : List Piece} (calm : Calm pieces) {position : Nat} {w : EventLoop}
    {result : StreamPoll TemplateStream × EventLoop} (walks : Walks pieces position w result) :
    Unpanicking result.1 := by
  obtain ⟨next, onward, among⟩ := walks.exists_next
  exact ⟨next, onward, fun r member => calm r (among r member)⟩

/-- A stream of which nothing can panic does not panic when it is asked. -/
theorem Calm.poll {s : TemplateStream} (calm : Calm s.pieces) (w : EventLoop) : Unpanicking (s.poll w).1 := by
  cases goesOn : s.finished with
  | true =>
    rw [poll_of_finished goesOn]
    exact ⟨s, rfl, calm⟩
  | false =>
    obtain ⟨left, w', drives, calm⟩ := calm.drives w
    exact calm.walk (drives.walks_poll goesOn)

/-! ### A stream and one with more behind it -/

/-- Two streams, of which the first has pieces that are the same as those of the second, and others behind
    them that cannot panic and keep to contents of their own.  Those in front or those behind have to do with
    late fragments, but not both. -/
structure InFront (shared : Bool) (N : Names) (own : Nat → Prop) (front front' behind : List Piece)
    (w v : EventLoop) : Prop where
  apart : N.Apart shared own w v
  same : List.Forall₂ (Piece.Same shared N) front front'
  keeping : Keeping (!shared) own behind
  calm : Calm behind

namespace InFront

variable {shared : Bool} {N : Names} {own : Nat → Prop} {front front' behind left : List Piece}
  {w w' v v' : EventLoop}

/-- The first pieces are passed. -/
theorem tail {piece piece' : Piece}
    (inFront : InFront shared N own (piece :: front) (piece' :: front') behind w v) :
    InFront shared N own front front' behind w v :=
  { inFront with same := (List.forall₂_cons.1 inFront.same).2 }

/-- Something happens in both runs while the streams stay as they are. -/
theorem onward (inFront : InFront shared N own front front' behind w v)
    (later : N.ApartLater shared own w' v') :
    ∃ N' own', InFront shared N' own' front front' behind w' v' := by
  obtain ⟨N', own', within, within', apart⟩ := later
  exact ⟨N', own', apart, inFront.same.imp fun _ _ same => same.mono within, inFront.keeping.mono within',
    inFront.calm⟩

/-- The renderings in front go on in both streams. -/
theorem drives_front (inFront : InFront shared N own front front' behind w v)
    (drives : Drives front w left w') :
    ∃ N' left' v', Drives front' v left' v' ∧ InFront shared N' own left left' behind w' v' := by
  obtain ⟨N', left', v', drives', -, apart, lefts⟩ := drives.same inFront.same inFront.apart
  exact ⟨N', left', v', drives', apart, lefts, inFront.keeping, inFront.calm⟩

/-- The renderings behind go on, and nothing in front notices. -/
theorem drives_behind (inFront : InFront shared N own front front' behind w v) : ∃ own' more w',
    Drives behind w more w' ∧ w'.now = w.now ∧ InFront shared N own' front front' more w' v := by
  obtain ⟨more, w', drives, calm⟩ := inFront.calm.drives w
  obtain ⟨own', -, now, apart, keeping⟩ := inFront.keeping.drives drives inFront.apart
  exact ⟨own', more, w', drives, now, apart, inFront.same, keeping, calm⟩

/-- A drain in front finds the same items in both runs. -/
theorem sameItems (inFront : InFront shared N own front front' behind w v)
    (drain : .slot (some (.sequence .patches)) ∈ front) : w.registry.SameItems v.registry := by
  obtain ⟨piece', -, same⟩ := forall₂_mem_left inFront.same drain
  have registry := inFront.apart.synced.registry (same.isShared rfl)
  exact ⟨registry.ready, registry.pending⟩

end InFront

/-! ### Asking both -/

/-- What comes of asking both streams: the same, unless the second one has ended. -/
inductive Agree : StreamPoll TemplateStream × EventLoop → StreamPoll TemplateStream × EventLoop → Prop
  | ended {answer : StreamPoll TemplateStream} {w v : EventLoop} {s : TemplateStream}
      (onward : Unpanicking answer) : Agree (answer, w) (.ready none s, v)
  | chunk {shared : Bool} {N : Names} {own : Nat → Prop} {front front' behind : List Piece}
      {w v : EventLoop} (inFront : InFront shared N own front front' behind w v) (chunk : Chunk)
      (position : Nat) : Agree (.ready (some (.ok chunk)) { position, pieces := front ++ behind }, w)
        (.ready (some (.ok chunk)) { position, pieces := front' }, v)
  | failed {w v : EventLoop} (now : w.now = v.now) (error : RenderError) (s s' : TemplateStream) :
      Agree (.ready (some (.error error)) s, w) (.ready (some (.error error)) s', v)
  | pending {shared : Bool} {N : Names} {own : Nat → Prop} {front front' behind : List Piece}
      {w v : EventLoop} (inFront : InFront shared N own front front' behind w v)
      (still : Standstill w.now w.registry front) (position : Nat) :
      Agree (.pending { position, pieces := front ++ behind }, w) (.pending { position, pieces := front' }, v)
  | panicked (message : String) (w v : EventLoop) : Agree (.panicked message, w) (.panicked message, v)

/-- Both streams end with the same error. -/
theorem Agree.fail {w v : EventLoop} (now : w.now = v.now) (error : RenderError) (position : Nat)
    (pieces pieces' : List Piece) :
    Agree (TemplateStream.fail error position pieces w) (TemplateStream.fail error position pieces' v) :=
  .failed (w := w.note (.notice (.streamFailed error position)))
    (v := v.note (.notice (.streamFailed error position))) now error _ _

theorem AskedSince.tail {since : Nat} {piece : Piece} {rest : List Piece}
    (asked : AskedSince since (piece :: rest)) : AskedSince since rest :=
  fun r member => asked r (Piece.mem_renderings_cons member)

namespace InFront

variable {shared : Bool} {N : Names} {own : Nat → Prop} {front front' behind : List Piece}
  {w v : EventLoop} (position : Nat)

/-- Walking over the pieces comes to the same, up to the end of the second stream. -/
theorem walk {now : Nat} (inFront : InFront shared N own front front' behind w v) (present : w.now = now)
    (asked : AskedSince now front) :
    Agree (TemplateStream.walk (front ++ behind) position w) (TemplateStream.walk front' position v) := by
  induction front generalizing front' w v position with
  | nil =>
    obtain rfl := List.forall₂_nil_left_iff.1 inFront.same
    exact .ended (inFront.calm.walk (walks behind position w))
  | cons piece rest ih =>
    obtain ⟨piece', rest', first, others, rfl⟩ := List.forall₂_cons_left_iff.1 inFront.same
    have onward (position : Nat) := ih position inFront.tail present asked.tail
    cases first with
    | segment text =>
      rw [List.cons_append, TemplateStream.walk, TemplateStream.walk]
      split
      · exact onward position
      · exact .chunk inFront.tail _ position
    | absent => exact onward (position + 1)
    | text text =>
      rw [List.cons_append, TemplateStream.walk, TemplateStream.walk]
      split
      · exact onward (position + 1)
      · exact .chunk inFront.tail _ (position + 1)
    | rendering same =>
      -- What waits in front stands still until the next of its sleeps is over.
      have waits {r : Rendering} (waits : r.manner ≠ .done ∧ r.manner ≠ .failed)
          (asked : AskedSince now (.slot (some (.rendering r)) :: rest)) :
          Standstill w.now w.registry (.slot (some (.rendering r)) :: rest) :=
        ⟨present ▸ asked, w, rfl, .rendering waits rest⟩
      cases same with
      | done _ markup =>
        rw [List.cons_append, TemplateStream.walk, TemplateStream.walk]
        split
        · exact onward (position + 1)
        · exact .chunk inFront.tail _ (position + 1)
      | failed _ error => exact .fail inFront.apart.now error (position + 1) _ _
      | panicked _ message => exact absurd rfl ((asked _ List.mem_cons_self).2 message)
      | _ => exact .pending inFront (waits ⟨Manner.noConfusion, Manner.noConfusion⟩ asked) position
    | @sequence s s' same =>
      obtain ⟨answers, lefts, later⟩ := inFront.apart.ask same
      have now := s.poll_now w
      rcases polled : s.poll w with ⟨answer, left, w'⟩
      rcases polled' : s'.poll v with ⟨answer', left', v'⟩
      rw [polled, polled'] at answers lefts later
      rw [polled] at now
      dsimp only at answers lefts later now
      subst answers
      have passed : InFront shared N own rest rest' behind w' v' := { inFront.tail with apart := later }
      have here : InFront shared N own (.slot (some (.sequence left)) :: rest)
          (.slot (some (.sequence left')) :: rest') behind w' v' :=
        { passed with same := .cons (.sequence lefts) others }
      rw [List.cons_append, TemplateStream.walk, TemplateStream.walk, polled, polled']
      cases answer with
      | item item =>
        cases item with
        | ok chunk => exact .chunk here chunk position
        | error error => exact .fail later.now error position _ _
      | finished =>
        have released : InFront shared N own rest rest' behind (left.release w') (left'.release v') :=
          { passed with apart := later.release lefts }
        exact ih (position + 1) released ((left.release_now w').trans (now.trans present)) asked.tail
      | waiting =>
        refine .pending here ⟨?_, w', rfl, .sequence now.symm polled rest⟩ position
        exact (now.trans present) ▸ asked.tail

/-- Asking both streams comes to the same, up to the end of the second one. -/
theorem poll (inFront : InFront shared N own front front' behind w v) :
    Agree (TemplateStream.poll { position, pieces := front ++ behind } w)
      (TemplateStream.poll { position, pieces := front' } v) := by
  obtain ⟨left, w', drives⟩ | ⟨message, w', panics⟩ := drives_or_panics front w
  · obtain ⟨N', left', v', drives', later⟩ := inFront.drives_front drives
    obtain ⟨own', more, w'', onward, now, later⟩ := later.drives_behind
    rw [(drives.append onward).poll rfl, drives'.poll rfl]
    exact later.walk position (now.trans drives.now) drives.askedSince
  · obtain ⟨v', panics'⟩ := panics.same inFront.same inFront.apart
    rw [(panics.append behind).poll rfl, panics'.poll rfl]
    exact .panicked message w' v'

/-- While the second stream waits, asking the first one lets only what stands behind go on. -/
theorem poll_behind {since : Nat} {registry : Registry}
    (inFront : InFront shared N own front front' behind w (v.movedTo w.now))
    (still : Standstill since registry front)
    (items : .slot (some (.sequence .patches)) ∈ front → v.registry.SameItems registry)
    (ahead : ∀ alarm ∈ front.flatMap Piece.alarms, since < alarm.deadline → w.now < alarm.deadline) :
    ∃ own' more w', TemplateStream.poll { position, pieces := front ++ behind } w =
      (.pending { position, pieces := front ++ more }, w') ∧ w'.now = w.now ∧
        InFront shared N own' front front' more w' (v.movedTo w'.now) := by
  obtain ⟨own', more, w', onward, now, later⟩ := inFront.drives_behind
  have found (drain : .slot (some (.sequence .patches)) ∈ front) : w'.registry.SameItems registry := by
    have both := later.sameItems drain
    have given := items drain
    exact ⟨both.ready.trans given.ready, both.pending.trans given.pending⟩
  obtain ⟨answers, waits⟩ := still.walk (w := w')
    (fun alarm isRunning early => now.symm ▸ ahead alarm isRunning early) found more position
  have unchanged : InFront shared N own' front front' more { w' with answers } (v.movedTo w'.now) := by
    rw [now]
    exact { later with
      apart := later.apart.unnoticed (.aside rfl rfl rfl rfl) (.refl _) (Nat.le_refl _) (Nat.le_refl _)
        later.apart.synced.registry }
  refine ⟨own', more, { w' with answers }, ?_, now, unchanged⟩
  rw [((still.drives ahead).append onward).poll rfl]
  exact waits

end InFront

end TemplateStream

end ProgressiveHtml
