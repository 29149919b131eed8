import ProgressiveHtml.Proofs.Rendering.Deeds
import ProgressiveHtml.Proofs.Rendering.Stages

namespace ProgressiveHtml

/-!
# Renderings — what is still ahead of a content

Everything is ahead of a content that is not used up.  Whoever uses it up gets what is ahead and keeps it
while it waits.  When the fragment is handed in, the registry gets it, except for the call of the
fallback.

* `Pace.toBeDone`, `EventLoop.reserve` — what is ahead while a value is waited for, and before that;
* `Rendering.Allows`, `Rendering.AllowsAll` — what renderings can still do with a content;
* `Rendering.Allows.of_claimed` — the stages of a content.
-/

/-- What is ahead of a content whose value is waited for. -/
def Pace.toBeDone (p : Pace) : Multiset Deed :=
  (if p.begun then 0 else {.started}) + {.settled, .shown}

/-- What is ahead of a content that is not used up. -/
def EventLoop.reserve (cell : Nat) (w : EventLoop) : Multiset Deed :=
  if cell ∈ w.used then 0 else Deed.all

namespace Rendering

mutual

/-- What a rendering can still do with the content with a number, unless it is used up on the way.
    What was handed in and what has been done is known. -/
inductive Allows (cell : Nat) (handed : List Registration) (past : List Deed) :
    Multiset Deed → Rendering → Prop
  | apart {r : Rendering} (treats : r.Treats cell .apart) : Allows cell handed past 0 r
  | wait {pace : Pace} {next : Rendering} {shown : Option Moment}
      (own : pace.label.cell = some cell) (onward : next.Treats cell (.settled shown)) :
      Allows cell handed past pace.toBeDone (wait pace next)
  | race {r : Race} {inTime : Rendering} {late : Pace → Rendering} {shown : Option Moment}
      (own : r.pace.label.cell = some cell) (ofInTime : inTime.Treats cell (.settled shown))
      (ofLate : ∀ pace, pace.label = r.pace.label → (late pace).Treats cell (.late shown pace)) :
      Allows cell handed past (.placed ::ₘ r.pace.toBeDone) (race r inTime late)
  | report {event : Event} {next : Rendering} {shown : Option Moment}
      (isThere : .settled ∈ past) (other : event.about cell = none) (plain : event.Plain)
      (onward : next.Treats cell (.settled shown)) :
      Allows cell handed past {.shown} (note event next)
  | shows {moment : Moment} {event : Event} {next : Rendering} (isThere : .settled ∈ past)
      (about : event.about cell = some moment) (isShown : moment.IsShown) (plain : event.Plain)
      (onward : next.Treats cell .apart) : Allows cell handed past {.shown} (note event next)
  | handIn {shown : Option Moment} {pace : Pace} {content next told : Nat → Rendering}
      (own : pace.label.cell = some cell)
      (waits : ∀ slot, content slot = .wait pace (told slot))
      (ofTold : ∀ slot, (told slot).Treats cell (.settled shown))
      (onward : ∀ slot, (next slot).Treats cell (.placing True slot)) :
      Allows cell handed past (.placed ::ₘ pace.toBeDone) (register content next)
  | place {label : Label} {slot : Nat} {next : Rendering} (own : label.cell = some cell)
      (requested : Requested cell handed slot) (onward : next.Treats cell .apart) :
      Allows cell handed past {.placed} (note (.fallback label slot) next)
  | placeOther {label : Label} {slot : Nat} {next : Rendering} (other : label.cell ≠ some cell)
      (onward : next.Treats cell .apart) : Allows cell handed past 0 (note (.fallback label slot) next)
  | join {ahead : Multiset Deed} {parts : List Rendering} {next : List String → Rendering}
      (ofParts : AllowsAll cell handed past ahead parts)
      (onward : ∀ texts, (next texts).Treats cell .apart) :
      Allows cell handed past ahead (join parts next)
  | attempt {ahead : Multiset Deed} {body : Rendering}
      {next : Except RenderError String → Rendering} (ofBody : Allows cell handed past ahead body)
      (onward : ∀ result, (next result).Treats cell .apart) :
      Allows cell handed past ahead (attempt body next)

/-- What several renderings can still do. -/
inductive AllowsAll (cell : Nat) (handed : List Registration) (past : List Deed) :
    Multiset Deed → List Rendering → Prop
  | nil : AllowsAll cell handed past 0 []
  | cons {ahead others : Multiset Deed} {part : Rendering} {rest : List Rendering}
      (first : Allows cell handed past ahead part)
      (onward : AllowsAll cell handed past others rest) :
      AllowsAll cell handed past (ahead + others) (part :: rest)

end

variable {cell : Nat} {handed handed' more : List Registration} {past past' : List Deed}
  {ahead left : Multiset Deed} {r r' : Rendering} {w w' : EventLoop}

/-! ### Knowing more -/

mutual

/-- What is known later allows the same. -/
theorem Allows.later (r : Rendering) {ahead : Multiset Deed}
    (allows : r.Allows cell handed past ahead) (known : handed ⊆ handed') (done : past ⊆ past') :
    r.Allows cell handed' past' ahead := by
  cases allows with
  | apart treats => exact .apart treats
  | wait own onward => exact .wait own onward
  | race own ofInTime ofLate => exact .race own ofInTime ofLate
  | report isThere other plain onward => exact .report (done isThere) other plain onward
  | shows isThere about isShown plain onward =>
    exact .shows (done isThere) about isShown plain onward
  | handIn own waits ofTold onward => exact .handIn own waits ofTold onward
  | place own requested onward => exact .place own (requested.later known) onward
  | placeOther other onward => exact .placeOther other onward
  | join ofParts onward => exact .join (AllowsAll.later _ ofParts known done) onward
  | attempt ofBody onward => exact .attempt (Allows.later _ ofBody known done) onward
termination_by structural r

/-- So do several renderings. -/
theorem AllowsAll.later (parts : List Rendering) {ahead : Multiset Deed}
    (allows : AllowsAll cell handed past ahead parts) (known : handed ⊆ handed')
    (done : past ⊆ past') : AllowsAll cell handed' past' ahead parts := by
  cases allows with
  | nil => exact .nil
  | cons first onward =>
    exact .cons (Allows.later _ first known done) (AllowsAll.later _ onward known done)
termination_by structural parts

end

/-! ### Several renderings -/

/-- What renderings that have nothing to do with a content can do with it. -/
theorem AllowsAll.apart {parts : List Rendering} (treats : ∀ part ∈ parts, part.Treats cell .apart) :
    AllowsAll cell handed past 0 parts := by
  induction parts with
  | nil => exact .nil
  | cons part rest ih =>
    have onward := ih fun other member => treats other (List.mem_cons_of_mem _ member)
    exact zero_add (0 : Multiset Deed) ▸ .cons (.apart (treats part List.mem_cons_self)) onward

theorem AllowsAll.append {ahead others : Multiset Deed} {parts rest : List Rendering}
    (first : AllowsAll cell handed past ahead parts)
    (second : AllowsAll cell handed past others rest) :
    AllowsAll cell handed past (ahead + others) (parts ++ rest) := by
  induction parts generalizing ahead with
  | nil =>
    cases first
    rwa [zero_add]
  | cons part parts ih =>
    cases first with
    | cons first onward =>
      rw [add_assoc]
      exact .cons first (ih onward)

/-- What several renderings can do is shared between the first ones and the others. -/
theorem AllowsAll.split {parts rest : List Rendering}
    (allows : AllowsAll cell handed past ahead (parts ++ rest)) : ∃ first second,
      ahead = first + second ∧ AllowsAll cell handed past first parts ∧
        AllowsAll cell handed past second rest := by
  induction parts generalizing ahead with
  | nil => exact ⟨0, ahead, (zero_add ahead).symm, .nil, allows⟩
  | cons part parts ih =>
    cases allows with
    | cons here onward =>
      obtain ⟨first, second, rfl, allows, allowsRest⟩ := ih onward
      exact ⟨_, second, (add_assoc ..).symm, .cons here allows, allowsRest⟩

theorem AllowsAll.single (allows : r.Allows cell handed past ahead) :
    AllowsAll cell handed past ahead [r] :=
  add_zero ahead ▸ .cons allows .nil

theorem AllowsAll.of_single (allows : AllowsAll cell handed past ahead [r]) :
    r.Allows cell handed past ahead := by
  cases allows with
  | cons first onward =>
    cases onward
    rwa [add_zero]

theorem AllowsAll.of_mem {parts : List Rendering} (allows : AllowsAll cell handed past ahead parts)
    (member : r ∈ parts) : ∃ here ≤ ahead, r.Allows cell handed past here := by
  obtain ⟨before, after, rfl⟩ := List.append_of_mem member
  obtain ⟨first, second, rfl, -, onward⟩ := allows.split
  cases onward with
  | cons here =>
    refine ⟨_, le_trans (Multiset.le_add_right _ _) (Multiset.le_add_left _ _), here⟩

/-- When some renderings are dropped, less is ahead. -/
theorem AllowsAll.sublist {parts fewer : List Rendering}
    (allows : AllowsAll cell handed past ahead parts) (sublist : fewer.Sublist parts) :
    ∃ left ≤ ahead, AllowsAll cell handed past left fewer := by
  induction sublist generalizing ahead with
  | slnil => exact ⟨ahead, le_rfl, allows⟩
  | cons _ _ ih =>
    cases allows with
    | cons first onward =>
      obtain ⟨left, within, allows⟩ := ih onward
      exact ⟨left, le_trans within (Multiset.le_add_left _ _), allows⟩
  | cons_cons _ _ ih =>
    cases allows with
    | cons first onward =>
      obtain ⟨left, within, allows⟩ := ih onward
      exact ⟨_, add_le_add_right within _, .cons first allows⟩

/-- One rendering among several. -/
theorem AllowsAll.middle {before after : List Rendering}
    (allows : AllowsAll cell handed past ahead (before ++ r :: after)) : ∃ first here last,
      ahead = first + (here + last) ∧ AllowsAll cell handed past first before ∧
        r.Allows cell handed past here ∧ AllowsAll cell handed past last after := by
  obtain ⟨first, second, rfl, ofBefore, onward⟩ := allows.split
  cases onward with
  | cons here onward => exact ⟨first, _, _, rfl, ofBefore, here, onward⟩

namespace Allows

/-- A group allows what its siblings allow. -/
theorem join_inv {parts : List Rendering} {next : List String → Rendering}
    (allows : (Rendering.join parts next).Allows cell handed past ahead) :
    AllowsAll cell handed past ahead parts ∧ ∀ texts, (next texts).Treats cell .apart := by
  cases allows with
  | apart treats =>
    cases treats with
    | join ofParts onward => exact ⟨.apart ofParts, onward⟩
  | join ofParts onward => exact ⟨ofParts, onward⟩

/-- An attempt allows what its body allows. -/
theorem attempt_inv {body : Rendering} {next : Except RenderError String → Rendering}
    (allows : (Rendering.attempt body next).Allows cell handed past ahead) :
    body.Allows cell handed past ahead ∧ ∀ result, (next result).Treats cell .apart := by
  cases allows with
  | apart treats =>
    cases treats with
    | attempt ofBody onward => exact ⟨.apart ofBody, onward⟩
  | attempt ofBody onward => exact ⟨ofBody, onward⟩

/-- A value that is waited for is still to settle. -/
theorem settled_mem_wait {pace : Pace} {next : Rendering} (own : pace.label.cell = some cell)
    (allows : (Rendering.wait pace next).Allows cell handed past ahead) : .settled ∈ ahead := by
  cases allows with
  | apart treats =>
    cases treats with
    | wait other => exact absurd own other
  | wait => simp [Pace.toBeDone]

/-! ### Stages -/

/-- A content whose value is there can be shown. -/
theorem of_settled {shown : Option Moment} (isThere : .settled ∈ past)
    (treats : r.Treats cell (.settled shown)) :
    ∃ left ≤ {.shown}, r.Allows cell handed past left := by
  cases treats with
  | nothing onward => exact ⟨0, Multiset.zero_le _, .apart onward⟩
  | report other plain onward => exact ⟨_, le_rfl, .report isThere other plain onward⟩
  | shows about isShown plain onward =>
    exact ⟨_, le_rfl, .shows isThere about isShown plain onward⟩

/-- Everything can be done with a content that has just been used up. -/
theorem of_claimed (treats : r.Treats cell .claimed) :
    ∃ left ≤ Deed.all, r.Allows cell handed past left := by
  cases treats with
  | @ownWait pace _ _ own onward =>
    refine ⟨_, ?_, .wait own onward⟩
    unfold Pace.toBeDone
    cases pace.begun <;> decide
  | @ownRace r _ _ _ own ofInTime ofLate =>
    refine ⟨_, ?_, .race own ofInTime ofLate⟩
    unfold Pace.toBeDone
    cases r.pace.begun <;> decide

/-- A content that is late keeps what is ahead. -/
theorem of_late {shown : Option Moment} {pace : Pace} (own : pace.label.cell = some cell)
    (treats : r.Treats cell (.late shown pace)) :
    r.Allows cell handed past (.placed ::ₘ pace.toBeDone) := by
  cases treats with
  | handIn waits ofTold onward => exact .handIn own waits ofTold onward

/-- The fallback of a content can be called for a slot that was requested for it. -/
theorem of_placing {slot : Nat} (requested : Requested cell handed slot)
    (treats : r.Treats cell (.placing True slot)) : r.Allows cell handed past {.placed} := by
  cases treats with
  | place named onward => exact .place (named.2 trivial) requested onward

/-- The fallback of another content has nothing to do with it. -/
theorem of_placingOther {slot : Nat} (treats : r.Treats cell (.placing False slot)) :
    r.Allows cell handed past 0 := by
  cases treats with
  | place named onward => exact .placeOther named.1 onward

end Allows

end Rendering

end ProgressiveHtml
