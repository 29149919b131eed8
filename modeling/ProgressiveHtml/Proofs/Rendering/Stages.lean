import ProgressiveHtml.Proofs.Rendering.Moments
import ProgressiveHtml.Proofs.Rendering.Silent

namespace ProgressiveHtml

/-!
# Renderings — the stages of one content

A content goes through stages.  At first nothing happens to it.  Once it is used up its value is
asked for; when the value settles, what it shows is written down; when a timer is first, the fragment
gets a slot, and then its fallback is called.  `Rendering.Treats` says of a rendering that it treats
a content in this way from a given stage on, and all other contents in the same way.

* `Stage`, `Rendering.Treats` — the stages, and the renderings that go on from them;
* `Rendering.Treats.andThen` — going on after a stage;
* `Rendering.shown` — what happens to a content as soon as its value is there;
* `Node.treats_rendering` — the rendering of a tree treats every content like this.
-/

/-- How far a content has got when a rendering goes on with it. -/
inductive Stage where
  /-- Nothing happens to it, unless it is used up. -/
  | apart
  /-- It has just been used up, and its value is to be asked for. -/
  | claimed
  /-- Its value is there, and `shown` is what happens next, if anything. -/
  | settled (shown : Option Moment)
  /-- The timer was first.  The fragment is to be handed in, with its value as far as it has got. -/
  | late (shown : Option Moment) (pace : Pace)
  /-- A fragment has got a slot, and its fallback is to be called; `own` tells whether this is the
      fragment of the content. -/
  | placing (own : Prop) (slot : Nat)

namespace Rendering

/-- A rendering that treats the content with a number in the right way, from a stage on. -/
inductive Treats (cell : Nat) : Stage → Rendering → Prop
  | done (markup : String) : Treats cell .apart (done markup)
  | failed (error : RenderError) : Treats cell .apart (failed error)
  | panicked (message : String) : Treats cell .apart (panicked message)
  | note {event : Event} {next : Rendering} (other : event.about cell = none) (plain : event.Plain)
      (onward : Treats cell .apart next) : Treats cell .apart (note event next)
  | claimOther {other : Nat} {next : Rendering} (isOther : other ≠ cell)
      (onward : Treats cell .apart next) : Treats cell .apart (claim other next)
  | claim {next : Rendering} (onward : Treats cell .claimed next) :
      Treats cell .apart (claim cell next)
  | number {size : Nat} {next : Nat → Rendering} (onward : ∀ first, Treats cell .apart (next first)) :
      Treats cell .apart (number size next)
  | outstanding {next : Nat → Rendering} (onward : ∀ pending, Treats cell .apart (next pending)) :
      Treats cell .apart (outstanding next)
  | register {content next : Nat → Rendering} (handed : ∀ slot, Treats cell .apart (content slot))
      (onward : ∀ slot, Treats cell (.placing False slot) (next slot)) :
      Treats cell .apart (register content next)
  | wait {pace : Pace} {next : Rendering} (other : pace.label.cell ≠ some cell)
      (onward : Treats cell .apart next) : Treats cell .apart (wait pace next)
  | race {r : Race} {inTime : Rendering} {late : Pace → Rendering}
      (other : r.pace.label.cell ≠ some cell) (ofInTime : Treats cell .apart inTime)
      (ofLate : ∀ pace, pace.label = r.pace.label → Treats cell .apart (late pace)) :
      Treats cell .apart (race r inTime late)
  | join {parts : List Rendering} {next : List String → Rendering}
      (ofParts : ∀ part ∈ parts, Treats cell .apart part)
      (onward : ∀ texts, Treats cell .apart (next texts)) : Treats cell .apart (join parts next)
  | attempt {body : Rendering} {next : Except RenderError String → Rendering}
      (ofBody : Treats cell .apart body) (onward : ∀ result, Treats cell .apart (next result)) :
      Treats cell .apart (attempt body next)
  /-- The value is waited for, however long it takes. -/
  | ownWait {pace : Pace} {next : Rendering} {shown : Option Moment}
      (own : pace.label.cell = some cell) (onward : Treats cell (.settled shown) next) :
      Treats cell .claimed (wait pace next)
  /-- The value is waited for, but not longer than a timer. -/
  | ownRace {r : Race} {inTime : Rendering} {late : Pace → Rendering} {shown : Option Moment}
      (own : r.pace.label.cell = some cell) (ofInTime : Treats cell (.settled shown) inTime)
      (ofLate : ∀ pace, pace.label = r.pace.label → Treats cell (.late shown pace) (late pace)) :
      Treats cell .claimed (race r inTime late)
  /-- Nothing happens to the content any more. -/
  | nothing {r : Rendering} (onward : Treats cell .apart r) : Treats cell (.settled none) r
  | report {shown : Option Moment} {event : Event} {next : Rendering}
      (other : event.about cell = none) (plain : event.Plain)
      (onward : Treats cell (.settled shown) next) : Treats cell (.settled shown) (note event next)
  | shows {moment : Moment} {event : Event} {next : Rendering}
      (about : event.about cell = some moment) (isShown : moment.IsShown) (plain : event.Plain)
      (onward : Treats cell .apart next) : Treats cell (.settled (some moment)) (note event next)
  /-- What is handed in waits for the value, and shows what would have been shown in time. -/
  | handIn {shown : Option Moment} {pace : Pace} {content next told : Nat → Rendering}
      (waits : ∀ slot, content slot = wait pace (told slot))
      (ofTold : ∀ slot, Treats cell (.settled shown) (told slot))
      (onward : ∀ slot, Treats cell (.placing True slot) (next slot)) :
      Treats cell (.late shown pace) (register content next)
  | place {own : Prop} {label : Label} {slot : Nat} {next : Rendering}
      (named : label.cell = some cell ↔ own) (onward : Treats cell .apart next) :
      Treats cell (.placing own slot) (note (.fallback label slot) next)

namespace Treats

variable {cell : Nat} {stage : Stage} {r : Rendering}

/-- Going on with markup in a way that has nothing to do with the content. -/
theorem andThen (treats : Treats cell stage r) {next : String → Rendering}
    (onward : ∀ markup, Treats cell .apart (next markup)) :
    Treats cell stage (r.andThen next) := by
  induction treats with
  | done markup => exact onward markup
  | failed error => exact .failed error
  | panicked message => exact .panicked message
  | note other plain _ ih => exact .note other plain ih
  | claimOther isOther _ ih => exact .claimOther isOther ih
  | claim _ ih => exact .claim ih
  | number _ ih => exact .number ih
  | outstanding _ ih => exact .outstanding ih
  | register handed _ _ ih => exact .register handed ih
  | wait other _ ih => exact .wait other ih
  | race other _ _ inTime late => exact .race other inTime late
  | join parts _ _ ih => exact .join parts ih
  | attempt body _ _ ih => exact .attempt body ih
  | ownWait own _ ih => exact .ownWait own ih
  | ownRace own _ _ inTime late => exact .ownRace own inTime late
  | nothing _ ih => exact .nothing ih
  | report other plain _ ih => exact .report other plain ih
  | shows about isShown plain _ ih => exact .shows about isShown plain ih
  | handIn waits content _ _ ih => exact .handIn waits content ih
  | place named _ ih => exact .place named ih

/-- Rendering several times in a row. -/
theorem times (treats : Treats cell .apart r) (count : Nat) : Treats cell .apart (times count r) := by
  induction count with
  | zero => exact .done ""
  | succ count ih => exact treats.andThen fun first => ih.andThen fun rest => .done (first ++ rest)

/-- A callback is called: this happens to the content if it is its own. -/
theorem call (event : Event) {label : Label} {moment : Moment} {next : Rendering}
    (labelled : event.labelled = some (label, moment)) (isShown : moment.IsShown)
    (plain : event.Plain) (onward : Treats cell .apart next) :
    Treats cell (if label.cell = some cell then .settled (some moment) else .apart)
      (Rendering.note event next) := by
  split <;> rename_i own
  · exact .shows (Event.about_own labelled own) isShown plain onward
  · exact .note (Event.about_other labelled own) plain onward

end Treats

/-! ### What is shown -/

/-- What happens to a content as soon as its value is there. -/
def shown (cell : Nat) : Rendering → Option Moment
  | note event next =>
    match event.about cell with
    | some moment => some moment
    | none => next.shown cell
  | _ => none

/-- The stage tells what is shown. -/
theorem Treats.shown_eq {cell : Nat} {stage : Stage} {r : Rendering} (treats : Treats cell stage r) :
    match stage with
    | .apart => r.shown cell = none
    | .settled moment? => r.shown cell = moment?
    | _ => True := by
  induction treats with
  | note other _ _ ih => simpa [shown, other] using ih
  | nothing _ ih => exact ih
  | report other _ _ ih => simpa [shown, other] using ih
  | shows about => simp [shown, about]
  | ownWait | ownRace | handIn | place => trivial
  | _ => rfl

end Rendering

/-! ### Trees -/

open Rendering

/-- A fragment whose callbacks have nothing to do with a content. -/
structure Fragment.Apart (cell : Nat) (f : Fragment) : Prop where
  shown : ∀ text, (f.shown text).Treats cell .apart
  onError : ∀ callback error shown, f.onError = some callback → callback error = some shown →
    shown.Treats cell .apart

namespace Fragment

variable {cell : Nat} {f : Fragment}

/-- Which callback a fragment calls for the result of its value. -/
def callback? (f : Fragment) : Option Moment :=
  match f.value.result with
  | .ok _ => some .rendering
  | .error _ => if f.onError.isSome then some .failure else none

/-- Which callback a fragment calls once its value has settled. -/
def shown? (f : Fragment) : Option Moment :=
  if f.value.panic?.isSome then none else f.callback?

/-- The stage of a content when the value of a fragment is there: it depends on whose value it is. -/
def stageAfter (f : Fragment) (cell : Nat) (shown : Option Moment) : Stage :=
  if f.label.cell = some cell then .settled shown else .apart

theorem stageAfter_own {shown : Option Moment} (own : f.label.cell = some cell) :
    f.stageAfter cell shown = .settled shown := if_pos own

theorem stageAfter_other {shown : Option Moment} (other : f.label.cell ≠ some cell) :
    f.stageAfter cell shown = .apart := if_neg other

/-- A report changes no stage. -/
theorem treats_report (notice : Notice) {next : Rendering} {shown : Option Moment}
    (other : (Event.notice notice).registered? = none)
    (onward : next.Treats cell (f.stageAfter cell shown)) :
    (Rendering.note (.notice notice) next).Treats cell (f.stageAfter cell shown) := by
  unfold stageAfter at *
  split at onward <;> rename_i own
  · rw [if_pos own]
    exact .report rfl ⟨other, rfl⟩ onward
  · rw [if_neg own]
    exact .note rfl ⟨other, rfl⟩ onward

/-- What happens to a content when a value has settled with its result. -/
theorem Apart.settled (apart : f.Apart cell) :
    (f.settled f.value.result).Treats cell (f.stageAfter cell f.callback?) := by
  unfold callback? stageAfter Fragment.settled
  cases f.value.result with
  | ok text => exact Treats.call (.rendering f.label) rfl (.inl rfl) ⟨rfl, rfl⟩ (apart.shown text)
  | error error =>
    cases callback : f.onError with
    | none =>
      have builtIn : Treats cell .apart (.done (failureMarkup error.full)) := .done _
      rw [Option.isSome_none, if_neg Bool.false_ne_true]
      show Treats cell (ite _ _ _) (.done (failureMarkup error.full))
      split
      · exact .nothing builtIn
      · exact builtIn
    | some build =>
      refine Treats.call (.failure f.label) rfl (.inr rfl) ⟨rfl, rfl⟩ ?_
      split
      · rename_i shown built
        exact apart.onError build error shown callback built
      · exact .note rfl ⟨rfl, rfl⟩ (.done _)

/-- What happens to a content when a value has taken its time. -/
theorem treats_conclude {next : Except Chain String → Rendering}
    (onward : (next f.value.result).Treats cell (f.stageAfter cell f.callback?)) :
    (f.value.conclude next).Treats cell (f.stageAfter cell f.shown?) := by
  unfold Eventual.conclude shown?
  cases f.value.panic? with
  | some message =>
    rw [Option.isSome_some, if_pos rfl]
    unfold stageAfter
    split
    · exact .nothing (.panicked message)
    · exact .panicked message
  | none =>
    rw [Option.isSome_none, if_neg Bool.false_ne_true]
    exact onward

/-- A fragment treats the content whose value it has, once it is used up, and all others. -/
theorem Apart.rendering (apart : f.Apart cell) {fallback : Rendering}
    (ofFallback : fallback.Treats cell .apart) (deferral : Option Nat) :
    (f.rendering fallback deferral).Treats cell
      (if f.label.cell = some cell then .claimed else .apart) := by
  have shows := treats_conclude apart.settled
  cases deferral with
  | none =>
    split <;> rename_i own
    · exact .ownWait own (stageAfter_own own ▸ shows)
    · exact .wait own (stageAfter_other own ▸ shows)
  | some timeout =>
    have inTime : (f.value.conclude fun result =>
        .note (.notice (inTimeNotice result)) (f.settled result)).Treats cell
          (f.stageAfter cell f.shown?) := by
      refine treats_conclude (treats_report _ ?_ apart.settled)
      cases f.value.result <;> rfl
    -- In its slot the fragment shows the same, and reports a failure first.
    have told (slot : Nat) : (f.value.conclude fun result =>
        match result with
        | .ok _ => f.settled result
        | .error error => .note (.notice (.fragmentFailed slot error)) (f.settled result)).Treats
          cell (f.stageAfter cell f.shown?) := by
      refine treats_conclude ?_
      have settled := apart.settled
      cases result : f.value.result with
      | ok text =>
        rw [result] at settled
        exact settled
      | error error =>
        rw [result] at settled
        exact treats_report (.fragmentFailed slot error) rfl settled
    -- The placeholder with the fallback is put in its place in either case.
    have placed (own : Prop) (named : f.label.cell = some cell ↔ own) (slot : Nat) :
        (Rendering.note (.fallback f.label slot) (fallback.andThen fun markup =>
          .done (Markup.placeholder (Markup.slotName slot) markup))).Treats cell
          (.placing own slot) :=
      .place named (ofFallback.andThen fun _ => .done _)
    split <;> rename_i own
    · rw [stageAfter_own own] at inTime
      refine .ownRace own inTime fun pace _ => .handIn (fun _ => rfl) (fun slot => ?_)
        (placed True (by simpa using own))
      exact stageAfter_own own ▸ told slot
    · rw [stageAfter_other own] at inTime
      refine .race own inTime fun pace same => .register (fun slot => ?_)
        (placed False (by simpa using own))
      exact .wait (same ▸ own) (stageAfter_other own ▸ told slot)

end Fragment

mutual

/-- The rendering of a tree treats every content in the right way. -/
theorem Node.treats_rendering (cell : Nat) (node : Node) (env : Environment) (first : Nat) :
    (node.rendering env first).Treats cell .apart := by
  cases node with
  | empty | markup | text => exact .done _
  | fail error => exact .failed error
  | panics message => exact .panicked message
  | element tag attributes children =>
    exact .join (Node.treats_renderings cell children env first) fun _ => .done _
  | group children => exact .join (Node.treats_renderings cell children env first) fun _ => .done _
  | head title children =>
    exact .join (Node.treats_renderings cell children env first) fun _ => .done _
  | provide key value child => exact child.treats_rendering cell _ first
  | consume key build => exact (build _).treats_rendering cell env
  | await value content =>
    have onward : (value.numbered first).conclude (fun _ => content.rendering env) |>.Treats cell
        .apart := by
      unfold Eventual.conclude
      split
      · exact .panicked _
      · exact content.treats_rendering cell env
    -- The content is that of this value, or another one that stands inside.
    by_cases own : first = cell
    · subst own
      exact .claim (.ownWait rfl (.nothing onward))
    · exact .claimOther own (.wait (by simpa [Eventual.numbered] using own) onward)
  | defer value render fallback onError =>
    rw [Node.rendering_defer]
    have apart : (Fragment.ofCallbacks (value.numbered first) render onError env).Apart cell := by
      constructor
      · exact fun text => (render text).treats_rendering cell env
      · intro callback error shown given built
        cases onError with
        | none => simp [Fragment.ofCallbacks] at given
        | some build =>
          obtain rfl := Option.some.inj given
          exact (build error).treats_rendering? cell env built
    have onward := apart.rendering (fallback.treats_rendering cell env) env.deferral
    have numbered : (Fragment.ofCallbacks (value.numbered first) render onError env).label.cell =
        some first := rfl
    rw [numbered] at onward
    by_cases own : first = cell
    · subst own
      rw [if_pos rfl] at onward
      exact .claim onward
    · rw [if_neg (by simpa using own)] at onward
      exact .claimOther own onward
  | again count child => exact (child.treats_rendering cell env first).times count
  | recover child =>
    refine .attempt (child.treats_rendering cell env first) fun result => ?_
    cases result <;> exact .done _
  | inspect keys =>
    rw [Node.rendering]
    split
    · exact .done _
    · exact .outstanding fun _ => .done _
termination_by structural node

/-- So do those of siblings. -/
theorem Node.treats_renderings (cell : Nat) (nodes : List Node) (env : Environment) (first : Nat) :
    ∀ part ∈ Node.renderings nodes env first, part.Treats cell .apart := by
  cases nodes with
  | nil => exact fun _ none => absurd none List.not_mem_nil
  | cons node rest =>
    intro part member
    obtain rfl | later := List.mem_cons.1 member
    · exact node.treats_rendering cell env first
    · exact Node.treats_renderings cell rest env _ part later
termination_by structural nodes

/-- So does that of what a callback built. -/
theorem Built.treats_rendering (cell : Nat) (built : Built) (env : Environment) :
    (built.rendering env).Treats cell .apart := by
  cases built with
  | node tree => exact .number fun first => tree.treats_rendering cell env first
  | panics message => exact .panicked message
termination_by structural built

theorem Built.treats_rendering? (cell : Nat) (built : Built) (env : Environment) {shown : Rendering}
    (rendered : built.rendering? env = some shown) : shown.Treats cell .apart := by
  cases built with
  | node tree =>
    obtain rfl := Option.some.inj rendered
    exact .number fun first => tree.treats_rendering cell env first
  | panics => simp [Built.rendering?] at rendered

end

/-- What callbacks build treats every content in the right way. -/
theorem Fragment.apart_ofCallbacks (cell : Nat) (value : Eventual (Except Chain String))
    (render : String → Built) (onError : Option (Chain → Built)) (env : Environment) :
    (Fragment.ofCallbacks value render onError env).Apart cell where
  shown text := (render text).treats_rendering cell env
  onError callback error shown given built := by
    obtain ⟨build, -, rfl⟩ := Option.map_eq_some_iff.1 given
    exact (build error).treats_rendering? cell env built

end ProgressiveHtml
