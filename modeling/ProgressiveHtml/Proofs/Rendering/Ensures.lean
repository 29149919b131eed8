import ProgressiveHtml.Proofs.Node.Shows
import ProgressiveHtml.Proofs.Related
import ProgressiveHtml.Proofs.Rendering.Silent

namespace ProgressiveHtml

/-!
# Renderings — what they promise

A rendering promises something about what it comes to: about the text, and about the fragments it
hands in on the way, each of which again keeps a promise about its content.  Every step keeps the
promise of the rendering.

* `Rendering.Ensures` — the promises of a rendering, read off from what is left to do;
* `Rendering.Ensures.mono`, `Rendering.Ensures.andThen` — weaker promises, and going on;
* `Rendering.Ensures.step` — a step keeps a promise, counting what it hands in;
* `Node.ensures_rendering` — the rendering of a regular tree promises what the tree shows.
-/

/-- The outcome after some fragments have been handed in before. -/
def Outcome.after (o : Outcome) (before : Multiset Cut) : Outcome :=
  { o with cuts := before + o.cuts }

namespace Outcome

@[simp] theorem after_zero (o : Outcome) : o.after 0 = o := by simp [after]

@[simp] theorem after_after (o : Outcome) (before earlier : Multiset Cut) :
    (o.after before).after earlier = o.after (earlier + before) := by
  simp [after, add_assoc]

@[simp] theorem after_text (o : Outcome) (before : Multiset Cut) :
    (o.after before).text = o.text := rfl

end Outcome

namespace Rendering

mutual

/-- What a rendering promises about what it comes to, unless it fails or panics. -/
def Ensures : Rendering → (Outcome → Prop) → Prop
  | done markup, promise => promise { text := markup }
  | failed _, _ => True
  | panicked _, _ => True
  | note _ next, promise => next.Ensures promise
  | claim _ next, promise => next.Ensures promise
  | number _ next, promise => ∀ first, (next first).Ensures promise
  | outstanding next, promise => ∀ pending, (next pending).Ensures promise
  | register content next, promise =>
    ∃ shown : Deferred, (∀ slot, (content slot).Ensures shown.Shows) ∧
      ∀ slot, (next slot).Ensures fun o => promise (o.after {⟨slot, shown⟩})
  | wait _ next, promise => next.Ensures promise
  | race _ inTime late, promise => inTime.Ensures promise ∧ ∀ pace, (late pace).Ensures promise
  | join parts next, promise =>
    ∃ promises, EnsuresAll parts promises ∧
      ∀ inner, List.Forall₂ (fun promise o => promise o) promises inner →
        (next (Outcome.texts inner)).Ensures fun o => promise (o.after (Outcome.allCuts inner))
  | attempt _ _, _ => False
termination_by structural r => r

/-- Siblings promise something each. -/
def EnsuresAll : List Rendering → List (Outcome → Prop) → Prop
  | [], promises => promises = []
  | part :: rest, promises =>
    ∃ promise others, part.Ensures promise ∧ EnsuresAll rest others ∧ promises = promise :: others
termination_by structural parts => parts

end

variable {r : Rendering} {promise weaker : Outcome → Prop}

/-- A rendering also promises less. -/
theorem Ensures.mono (ensures : r.Ensures promise) (imp : ∀ o, promise o → weaker o) :
    r.Ensures weaker := by
  induction r using Rendering.rec (motive_2 := fun _ => True) generalizing promise weaker with
  | done markup => exact imp _ ensures
  | failed | panicked => trivial
  | note _ _ ih => exact ih ensures imp
  | claim _ _ ih => exact ih ensures imp
  | wait _ _ ih => exact ih ensures imp
  | number _ _ ih => exact fun first => ih first (ensures first) imp
  | outstanding _ ih => exact fun pending => ih pending (ensures pending) imp
  | register content next _ ih =>
    obtain ⟨shown, ofContent, onward⟩ := ensures
    exact ⟨shown, ofContent, fun slot => ih slot (onward slot) fun o => imp _⟩
  | race _ _ _ inTime late =>
    exact ⟨inTime ensures.1 imp, fun pace => late pace (ensures.2 pace) imp⟩
  | join parts next _ ih =>
    obtain ⟨promises, ofParts, onward⟩ := ensures
    exact ⟨promises, ofParts, fun inner kept => ih _ (onward inner kept) fun o => imp _⟩
  | attempt => exact ensures.elim
  | nil | cons => trivial

/-- A rendering that goes on with its markup promises what it goes on to promise. -/
theorem Ensures.andThen {next : String → Rendering}
    (ensures : r.Ensures fun o => (next o.text).Ensures fun o' => promise (o'.after o.cuts)) :
    (r.andThen next).Ensures promise := by
  induction r using Rendering.rec (motive_2 := fun _ => True) generalizing promise with
  | done markup => exact Ensures.mono ensures fun o kept => by simpa using kept
  | failed | panicked => trivial
  | note _ _ ih => exact ih ensures
  | claim _ _ ih => exact ih ensures
  | wait _ _ ih => exact ih ensures
  | number _ _ ih => exact fun first => ih first (ensures first)
  | outstanding _ ih => exact fun pending => ih pending (ensures pending)
  | register content _ _ ih =>
    obtain ⟨shown, ofContent, onward⟩ := ensures
    exact ⟨shown, ofContent, fun slot => ih slot (by simpa [Outcome.after] using onward slot)⟩
  | race _ _ _ inTime late => exact ⟨inTime ensures.1, fun pace => late pace (ensures.2 pace)⟩
  | join parts _ _ ih =>
    obtain ⟨promises, ofParts, onward⟩ := ensures
    refine ⟨promises, ofParts, fun inner kept => ih _ ?_⟩
    simpa [Outcome.after, add_assoc] using onward inner kept
  | attempt => exact ensures.elim
  | nil | cons => trivial

/-! ### Steps -/

/-- A fragment that was handed in, as a cut: its content promises what the cut shows. -/
def Fits (registration : Registration) (cut : Cut) : Prop :=
  cut.slot = registration.slot ∧
    ∀ slot, (registration.content slot).Ensures cut.content.Shows

/-- The promises of siblings with one of them in the middle. -/
theorem ensuresAll_middle {before after : List Rendering} {part : Rendering}
    {promises : List (Outcome → Prop)} :
    EnsuresAll (before ++ part :: after) promises ↔
      ∃ first own last, EnsuresAll before first ∧ part.Ensures own ∧ EnsuresAll after last ∧
        promises = first ++ own :: last := by
  induction before generalizing promises with
  | nil => simp [EnsuresAll]
  | cons other rest ih =>
    constructor
    · rintro ⟨here, others, ensures, ensuresAll, rfl⟩
      obtain ⟨first, own, last, ofFirst, ofOwn, ofLast, rfl⟩ := ih.1 ensuresAll
      exact ⟨here :: first, own, last, ⟨here, first, ensures, ofFirst, rfl⟩, ofOwn, ofLast, rfl⟩
    · rintro ⟨first, own, last, ⟨here, others, ensures, ofOthers, rfl⟩, ofOwn, ofLast, rfl⟩
      exact ⟨here, _, ensures, ih.2 ⟨others, own, last, ofOthers, ofOwn, ofLast, rfl⟩, rfl⟩

/-- A group is complete only when everything in it is there. -/
theorem parts_of_complete {prompt settled : Bool} {parts : List Rendering} {texts : List String}
    (stands : verdictFrom prompt settled parts = .complete texts) :
    settled = true ∧ parts = texts.map done := by
  induction parts generalizing settled texts with
  | nil =>
    cases settled with
    | true =>
      obtain rfl := Verdict.complete.inj stands
      exact ⟨rfl, rfl⟩
    | false => cases stands
  | cons part rest ih =>
    -- Behind a part that is not there the group cannot be complete.
    have behind {later : List String} (stands : verdictFrom prompt false rest = .complete later) :
        False := by
      simpa using (ih stands).1
    cases part with
    | done markup =>
      cases later : verdictFrom prompt settled rest with
      | complete others =>
        simp only [verdictFrom, later] at stands
        obtain rfl := Verdict.complete.inj stands
        obtain ⟨settled, rfl⟩ := ih later
        exact ⟨settled, rfl⟩
      | _ => simp [verdictFrom, later] at stands
    | failed error =>
      simp only [verdictFrom] at stands
      split at stands
      · cases stands
      · exact (behind stands).elim
    | panicked => simp [verdictFrom] at stands
    | _ => exact (behind (by simpa only [verdictFrom] using stands)).elim

/-- Siblings that are all there have kept their promises. -/
theorem EnsuresAll.done {texts : List String} {promises : List (Outcome → Prop)}
    (ensures : EnsuresAll (texts.map done) promises) :
    ∃ inner, List.Forall₂ (fun promise o => promise o) promises inner ∧
      Outcome.texts inner = texts ∧ Outcome.allCuts inner = 0 := by
  induction texts generalizing promises with
  | nil =>
    obtain rfl := ensures
    exact ⟨[], .nil, rfl, rfl⟩
  | cons text rest ih =>
    obtain ⟨promise, others, kept, ofRest, rfl⟩ := ensures
    obtain ⟨inner, keptAll, texts, none⟩ := ih ofRest
    refine ⟨{ text } :: inner, .cons kept keptAll, ?_, ?_⟩
    · rw [← texts]
      rfl
    · show 0 + Outcome.allCuts inner = 0
      rw [none, add_zero]

/-- What one sibling has handed in before counts for its group. -/
theorem allCuts_middle (before after : List Outcome) (o : Outcome) (cuts : Multiset Cut) :
    Outcome.allCuts (before ++ o.after cuts :: after) =
      cuts + Outcome.allCuts (before ++ o :: after) := by
  simp only [Outcome.allCuts, Outcome.after, List.map_append, List.map_cons, List.sum_append,
    List.sum_cons]
  rw [add_assoc, add_left_comm]

theorem texts_middle (before after : List Outcome) (o : Outcome) (cuts : Multiset Cut) :
    Outcome.texts (before ++ o.after cuts :: after) = Outcome.texts (before ++ o :: after) := by
  simp [Outcome.texts]

theorem Ensures.unchanged {r : Rendering} {promise : Outcome → Prop} (ensures : r.Ensures promise) :
    r.Ensures fun o => promise (o.after (([] : List Cut) : Multiset Cut)) := by
  simpa using ensures

/-- A step keeps the promise of a rendering, counting the fragments it hands in. -/
theorem Ensures.step {r r' : Rendering} {w w' : EventLoop} {handed : List Registration}
    {promise : Outcome → Prop} (ensures : r.Ensures promise) (step : r.Step w handed r' w') :
    ∃ cuts : List Cut, List.Forall₂ Fits handed cuts ∧
      r'.Ensures fun o => promise (o.after (cuts : Multiset Cut)) := by
  induction step generalizing promise with
  | register content next w =>
    obtain ⟨shown, ofContent, onward⟩ := ensures
    exact ⟨[⟨_, shown⟩], .cons ⟨rfl, ofContent⟩ .nil, onward _⟩
  | @part part part' handed w w' _ before after next ih =>
    obtain ⟨promises, ofParts, onward⟩ := ensures
    obtain ⟨first, own, last, ofFirst, ofOwn, ofLast, rfl⟩ := ensuresAll_middle.1 ofParts
    obtain ⟨cuts, fits, left⟩ := ih ofOwn
    refine ⟨cuts, fits, _, ensuresAll_middle.2 ⟨first, _, last, ofFirst, left, ofLast, rfl⟩, ?_⟩
    intro inner kept
    obtain ⟨before, o, after, rfl, keptFirst, here, keptLast⟩ := forall₂_middle kept.flip
    -- What the sibling still promises counts what it has handed in.
    have onward := onward (before ++ o.after cuts :: after)
      (List.rel_append keptFirst.flip (.cons here keptLast.flip))
    rw [allCuts_middle, texts_middle] at onward
    simpa using onward
  | @complete parts markup stands next w =>
    obtain ⟨promises, ofParts, onward⟩ := ensures
    obtain ⟨-, rfl⟩ := parts_of_complete stands
    obtain ⟨inner, kept, texts, none⟩ := ofParts.done
    have onward := onward inner kept
    rw [texts, none] at onward
    exact ⟨[], .nil, onward⟩
  | number | outstanding => exact ⟨[], .nil, .unchanged (ensures _)⟩
  | inTime => exact ⟨[], .nil, .unchanged ensures.1⟩
  | late => exact ⟨[], .nil, .unchanged (ensures.2 _)⟩
  | note | claim | wait | settle | race => exact ⟨[], .nil, .unchanged ensures⟩
  | refuse | failPart | panicPart => exact ⟨[], .nil, trivial⟩
  | body | succeed | recover | panicBody => exact ensures.elim

/-- So do any number of steps. -/
theorem Ensures.steps {r r' : Rendering} {w w' : EventLoop} {handed : List Registration}
    {promise : Outcome → Prop} (ensures : r.Ensures promise) (steps : r.Steps w handed r' w') :
    ∃ cuts : List Cut, List.Forall₂ Fits handed cuts ∧
      r'.Ensures fun o => promise (o.after (cuts : Multiset Cut)) := by
  induction steps generalizing promise with
  | refl => exact ⟨[], .nil, .unchanged ensures⟩
  | head step _ ih =>
    obtain ⟨cuts, fits, left⟩ := ensures.step step
    obtain ⟨more, fitsMore, left⟩ := ih left
    exact ⟨cuts ++ more, List.rel_append fits fitsMore, by simpa using left⟩

end Rendering

/-! ### Trees -/

/-- What is promised once a value has taken its time. -/
theorem Eventual.ensures_conclude {α : Type} (value : Eventual α) {next : α → Rendering}
    {promise : Outcome → Prop} (onward : (next value.result).Ensures promise) :
    (value.conclude next).Ensures promise := by
  unfold conclude
  split
  · trivial
  · exact onward

/-- What a fragment promises, from what its content and its fallback do. -/
theorem Fragment.ensures_rendering {f : Fragment} {shown : Deferred} {fallback : Rendering}
    {deferral : Option Nat} {promise ofFallback : Outcome → Prop}
    (settled : (f.settled f.value.result).Ensures shown.Shows)
    (instead : fallback.Ensures ofFallback) (inline : ∀ o, shown.Shows o → promise o)
    (deferred : deferral.isSome → ∀ slot o, ofFallback o →
      promise ⟨Markup.placeholder (Markup.slotName slot) o.text, ⟨slot, shown⟩ ::ₘ o.cuts⟩) :
    (f.rendering fallback deferral).Ensures promise := by
  cases deferral with
  | none => exact (f.value.ensures_conclude settled).mono inline
  | some timeout =>
    have inTime : (f.value.conclude fun result =>
        .note (.notice (inTimeNotice result)) (f.settled result)).Ensures shown.Shows :=
      f.value.ensures_conclude settled
    refine ⟨inTime.mono inline, fun pace => ⟨shown, fun slot => ?_, ?_⟩⟩
    · refine f.value.ensures_conclude ?_
      generalize f.value.result = result at settled ⊢
      cases result with
      | ok => exact settled
      | error => exact settled
    · refine fun slot => Rendering.Ensures.andThen (instead.mono fun o kept => ?_)
      simpa [Rendering.Ensures, Outcome.after] using deferred rfl slot o kept

/-- What is promised for a failure, from what the callback for it does. -/
theorem ensures_failureRendering (label : Label) {callback : Chain → Option Rendering}
    {error : Chain} {promise : Outcome → Prop}
    (ofShown : ∀ shown, callback error = some shown → shown.Ensures promise)
    (ofPanic : callback error = none → promise { text := failureMarkup error.full }) :
    (failureRendering label (some callback) error).Ensures promise := by
  dsimp only [failureRendering]
  cases outcome : callback error with
  | some shown => exact ofShown shown outcome
  | none => exact ofPanic outcome

/-- Where a callback panicked another text stands instead. -/
theorem Built.shows_of_panic {built : Built} {env : Environment} {text : String}
    (panicked : built.rendering? env = none) : built.Shows (some text) env { text } := by
  cases built with
  | node => simp [Built.rendering?] at panicked
  | panics => exact ⟨text, rfl, rfl⟩

mutual

/-- The rendering of a regular tree promises what the tree shows. -/
theorem Node.ensures_rendering (node : Node) (regular : node.Regular) (env : Environment)
    (first : Nat) : (node.rendering env first).Ensures (node.Shows env) := by
  cases node with
  | empty | markup | text => exact rfl
  | fail | panics => trivial
  | element tag attributes children =>
    obtain ⟨promises, ofParts, shows⟩ := Node.ensures_renderings children regular env first
    exact ⟨promises, ofParts, fun inner kept =>
      ⟨inner, shows inner kept, by simp [Outcome.after]⟩⟩
  | group children =>
    obtain ⟨promises, ofParts, shows⟩ := Node.ensures_renderings children regular env first
    exact ⟨promises, ofParts, fun inner kept =>
      ⟨inner, shows inner kept, by simp [Outcome.after]⟩⟩
  | head title children =>
    obtain ⟨promises, ofParts, shows⟩ := Node.ensures_renderings children regular env first
    exact ⟨promises, ofParts, fun inner kept =>
      ⟨inner, shows inner kept, by simp [Outcome.after]⟩⟩
  | provide key value child => exact child.ensures_rendering regular (env.add key value) first
  | consume key build => exact (build _).ensures_rendering (regular _) none env
  | await value content =>
    exact Eventual.ensures_conclude _ (content.ensures_rendering regular none env)
  | defer value render fallback onError =>
    obtain ⟨ofRender, ofFallback, ofError⟩ := Node.regular_defer.1 regular
    rw [Node.rendering_defer]
    -- Once the value is there, its text is shown, or what the callback makes of its error.
    have settled : ((Fragment.ofCallbacks (value.numbered first) render onError env).settled
        value.result).Ensures (Deferred.Shows ⟨value.result, render, onError, env⟩) := by
      show (Fragment.settled _ value.result).Ensures _
      cases value.result with
      | ok text => exact (render text).ensures_rendering (ofRender text) none env
      | error chain =>
        cases onError with
        | none => exact rfl
        | some build =>
          show (failureRendering _ (some fun error => (build error).rendering? env) chain).Ensures _
          refine ensures_failureRendering _ (fun shown built => ?_) fun panicked => ?_
          · exact (build chain).ensures_rendering? (ofError build rfl chain) _ env built
          · exact Built.shows_of_panic panicked
    exact Fragment.ensures_rendering settled (fallback.ensures_rendering ofFallback none env)
      (fun o shows => Node.shows_defer.2 (.inl shows))
      fun deferring slot o shows => Node.shows_defer.2 (.inr ⟨deferring, slot, o, shows, rfl⟩)
  | again | recover | inspect => exact regular.elim
termination_by structural node

/-- The renderings of siblings promise what the siblings show. -/
theorem Node.ensures_renderings (nodes : List Node) (regular : Node.RegularAll nodes)
    (env : Environment) (first : Nat) :
    ∃ promises, Rendering.EnsuresAll (Node.renderings nodes env first) promises ∧
      ∀ inner, List.Forall₂ (fun promise o => promise o) promises inner →
        Node.ShowsAll nodes env inner := by
  cases nodes with
  | nil =>
    refine ⟨[], rfl, fun inner kept => ?_⟩
    cases kept
    rfl
  | cons node rest =>
    obtain ⟨here, later⟩ := regular
    obtain ⟨promises, ofRest, shows⟩ := Node.ensures_renderings rest later env (first + node.cells)
    refine ⟨_ :: promises, ⟨_, promises, node.ensures_rendering here env first, ofRest, rfl⟩, ?_⟩
    intro inner kept
    obtain ⟨o, others, keptHere, keptRest, rfl⟩ := List.forall₂_cons_left_iff.1 kept
    exact ⟨o, others, keptHere, shows others keptRest, rfl⟩
termination_by structural nodes

/-- The rendering of what a callback built promises what this shows. -/
theorem Built.ensures_rendering (built : Built) (regular : built.Regular)
    (instead : Option String) (env : Environment) :
    (built.rendering env).Ensures (built.Shows instead env) := by
  cases built with
  | node tree => exact fun first => tree.ensures_rendering regular env first
  | panics => trivial
termination_by structural built

theorem Built.ensures_rendering? (built : Built) (regular : built.Regular)
    (instead : Option String) (env : Environment) {shown : Rendering}
    (rendered : built.rendering? env = some shown) : shown.Ensures (built.Shows instead env) := by
  cases built with
  | node tree =>
    obtain rfl := Option.some.inj rendered
    exact fun first => tree.ensures_rendering regular env first
  | panics => simp [Built.rendering?] at rendered

end

end ProgressiveHtml
