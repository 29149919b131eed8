import ProgressiveHtml.Proofs.Document.Consumption
import ProgressiveHtml.Proofs.Node.Same
import ProgressiveHtml.Proofs.Template.FrontReading
import ProgressiveHtml.Proofs.Template.Settling

namespace ProgressiveHtml

/-!
# Template streams — nothing is held back

What comes of a template up to and with the literal text in front of a slot depends neither on the source of
this slot nor on those that come first behind it: it is what comes of the template that is cut off there, and
it comes at the same times.  Only late fragments can hold something back, when they concern both what stands
in front and what comes later: a drain in front waits for every fragment that is handed in later, and the
slots of all fragments are numbered in one sequence.

* `Source.FitsInFront`, `Source.FitsBehind` — sources that may stand in front, and such as may come later;
* `Source.fitsInFront_ofNode`, `Source.fitsBehind_ofNode` — trees may do so;
* `Template.upTo` — a template that is cut off in front of a slot;
* `TemplateStream.begins_upTo` — reading a template begins as reading what is cut off;
* `TemplateStream.held_back_by_fragment` — what late fragments hold back;
* `TemplateStream.never_held_back` — templates whose sources agree up to a slot.
-/

open Rendering EventLoop

/-! ### Sources in front and behind -/

namespace Source

/-- A source that may stand in front of others, to which the contents `own` belong.  What it renders uses up
    none of these, nothing but what has been numbered in the state `w` and what it numbers itself.  Unless the
    late fragments are `shared` by what stands in front, it has nothing to do with them: it can hand in none,
    does not ask how many there are, and is not their drain. -/
def FitsInFront (shared : Bool) (own : Nat → Prop) (w : EventLoop) : Source → Prop
  | .rendering r => r.Same shared (.soFar w own) r
  | .sequence .patches => shared = true
  | _ => True

/-- A source that may come later, with the contents `own`.  What it renders does not panic, uses up only these
    and those that it numbers itself, and can hand in no fragment when the late fragments are `shared` by what
    stands in front. -/
def FitsBehind (shared : Bool) (own : Nat → Prop) : Source → Prop
  | .rendering r => r.KeepsTo (!shared) own ∧ ¬r.MayPanic
  | _ => True

variable {shared : Bool} {own : Nat → Prop} {w : EventLoop}

/-- A tree in which nothing has been asked before may stand in front; where nothing can be deferred, whatever
    comes later. -/
theorem fitsInFront_ofNode (node : Node) {env : Environment} (fresh : shared = true → node.Fresh env)
    (inPlace : shared = false → env.deferral = none) :
    (Source.ofNode node env).FitsInFront shared own w :=
  (Built.node node).same fresh inPlace (.soFar w own)

/-- A tree in which nothing panics may come later; where late fragments are shared by what stands in front,
    if nothing can be deferred. -/
theorem fitsBehind_ofNode (node : Node) {env : Environment} (fresh : shared = false → node.Fresh env)
    (inPlace : shared = true → env.deferral = none)
    (free : ((Built.node node).rendering env).PanicFree) :
    (Source.ofNode node env).FitsBehind shared own := by
  have same : ((Built.node node).rendering env).Same (!shared) ⟨fun _ _ => False, fun _ _ => False⟩ _ :=
    (Built.node node).same (fun unshared => fresh (by simpa using unshared)) (by simpa using inPlace) _
  exact ⟨same.keepsTo nofun, free.not_mayPanic⟩

/-- A value whose future does not panic may come later, also when it fails or never settles. -/
theorem fitsBehind_ofEventual {value : Eventual (Except RenderError String)} (calm : value.panic? = none) :
    (Source.ofEventual value).FitsBehind shared own := by
  obtain ⟨next, same, ended, notPanicked, -⟩ := Source.ofEventual_eq calm
  have notNext {r : Rendering} (may : r.MayPanic) : r ≠ next := by
    induction may with
    | panicked message => exact (notPanicked message).symm
    | poll w _ ih =>
      rintro rfl
      exact ih (by rw [poll_of_isOver ended])
  have waits {r : Rendering} (may : r.MayPanic) : ∀ pace, r ≠ .wait pace next := by
    induction may with
    | panicked message => exact fun pace => Rendering.noConfusion
    | poll w later ih =>
      rintro pace rfl
      obtain here | ⟨left, -, still⟩ := wait_poll ended pace w
      · exact notNext later here
      · exact ih left still
  rw [same]
  exact ⟨.wait value.pace (.of_isOver ended), fun may => waits may value.pace rfl⟩

/-- What is left of a source for the next slot of its name. -/
def kept : Source → Option Source
  | .text plain => some (.text plain)
  | _ => none

end Source

/-! ### Templates that are cut off -/

/-- The template cut off in front of slot number `p`, with the literal text in front of this slot. -/
def Template.upTo (t : Template) (p : Nat) : Template := { t with sections := t.sections.take p }

namespace Sources

/-- What is left of sources when a slot has got the one of its name. -/
theorem get?_take (sources : Sources) (name other : String) :
    Named.get? (sources.take name).2 other =
      if other = name then (Named.get? sources name).bind Source.kept else Named.get? sources other := by
  obtain ⟨plain, found, taken⟩ | ⟨source, notText, found, taken⟩ | ⟨found, taken⟩ :=
    sources.take_cases name <;> rw [taken, found]
  · split
    · rename_i same
      rw [same, found]
      rfl
    · rfl
  · rw [Named.get?_erase]
    cases source with
    | text plain => exact absurd rfl (notText plain)
    | _ => rfl
  · split
    · rename_i same
      rw [same, found]
      rfl
    · rfl

end Sources

/-- A supply is like itself. -/
theorem Supply.Alike.refl (s : Supply) : s.Alike s :=
  ⟨List.forall₂_same.2 fun entry _ => ⟨.refl entry.1, rfl⟩, rfl⟩

/-- A slot that is filled from a source that may stand in front is the same in two runs. -/
theorem Source.FitsInFront.same {shared : Bool} {own : Nat → Prop} {w : EventLoop} {source : Source}
    (fits : source.FitsInFront shared own w) :
    Piece.Same shared (.soFar w own) (.slot (some source)) (.slot (some source)) := by
  rcases source with plain | r | (s | _)
  · exact .text plain
  · exact .rendering fits
  · exact .sequence (.supply (.refl s))
  · exact .sequence (.patches fits)

namespace TemplateStream

/-- The pieces of sections depend only on the sources of their names. -/
theorem assign_congr {sections : List (String × String)} {sources sources' : Sources}
    (agree : ∀ name ∈ sections.map (·.1), Named.get? sources name = Named.get? sources' name)
    (w w' : EventLoop) : (assign sections sources w).1 = (assign sections sources' w').1 := by
  induction sections generalizing sources sources' w w' with
  | nil => rfl
  | cons entry rest ih =>
    obtain ⟨name, text⟩ := entry
    rw [List.map_cons, List.forall_mem_cons] at agree
    obtain ⟨v, -, assigned⟩ := assign_cons name text rest sources w
    obtain ⟨v', -, assigned'⟩ := assign_cons name text rest sources' w'
    have onward : ∀ other ∈ rest.map (·.1), Named.get? (sources.take name).2 other =
        Named.get? (sources'.take name).2 other := fun other member => by
      rw [Sources.get?_take, Sources.get?_take, agree.1, agree.2 other member]
    rw [assigned, assigned', Sources.take_fst, Sources.take_fst, agree.1, ih onward v v']

/-- The pieces of sections and then of others. -/
theorem assign_append (sections others : List (String × String)) (sources : Sources) (w : EventLoop) :
    (assign (sections ++ others) sources w).1 =
      (assign sections sources w).1 ++
        (assign others (assign sections sources w).2.1 (assign sections sources w).2.2).1 := by
  induction sections generalizing sources w with
  | nil => rfl
  | cons entry rest ih =>
    obtain ⟨name, text⟩ := entry
    rcases taken : sources.take name with ⟨_ | source, left⟩
    · simp only [List.cons_append, assign, taken, ih]
    · simp only [List.cons_append, assign, taken, ih]

/-- What sections leave of the sources was there before; of a name that occurs in them it is a text. -/
theorem get?_assign {sections : List (String × String)} {sources : Sources} {w : EventLoop} {name : String}
    {source : Source} : Named.get? (assign sections sources w).2.1 name = some source ↔
      Named.get? sources name = some source ∧
        (name ∈ sections.map (·.1) → ∃ plain, source = .text plain) := by
  induction sections generalizing sources w with
  | nil => simp [assign]
  | cons entry rest ih =>
    obtain ⟨first, text⟩ := entry
    obtain ⟨w', -, assigned⟩ := assign_cons first text rest sources w
    rw [assigned, ih, Sources.get?_take, List.map_cons, List.mem_cons]
    by_cases here : name = first
    · subst here
      rw [if_pos rfl, Option.bind_eq_some_iff]
      constructor
      · rintro ⟨⟨_ | _ | _, found, isKept⟩, -⟩ <;> cases isKept
        exact ⟨found, fun _ => ⟨_, rfl⟩⟩
      · rintro ⟨found, isText⟩
        obtain ⟨plain, rfl⟩ := isText (.inl rfl)
        exact ⟨⟨_, found, rfl⟩, fun _ => ⟨plain, rfl⟩⟩
    · simp [here]

/-- The pieces of sections whose sources may stand in front are the same in two runs. -/
theorem assign_same {shared : Bool} {own : Nat → Prop} {u : EventLoop} {sections : List (String × String)}
    {sources : Sources} (fits : ∀ name ∈ sections.map (·.1), ∀ source,
      Named.get? sources name = some source → source.FitsInFront shared own u) (w : EventLoop) :
    List.Forall₂ (Piece.Same shared (.soFar u own)) (assign sections sources w).1
      (assign sections sources w).1 :=
  List.forall₂_same.2 <| assign_forall .segment .absent sections
    (fun name occurs source found => (fits name occurs source found).same) w

/-- Sections get their pieces, and those in front of number `p` get the same as on their own.  Those behind
    get what is left of the sources: nothing but texts of the names that occur in front. -/
theorem assign_split (sections : List (String × String)) (p : Nat) (sources : Sources) (w : EventLoop) :
    ∃ left u, (∀ w', (assign sections sources w).1 =
        (assign (sections.take p) sources w').1 ++ (assign (sections.drop p) left u).1) ∧
      ∀ name source, Named.get? left name = some source → Named.get? sources name = some source ∧
        (name ∈ (sections.take p).map (·.1) → ∃ plain, source = .text plain) := by
  refine ⟨(assign (sections.take p) sources w).2.1, (assign (sections.take p) sources w).2.2,
    fun w' => ?_, fun name source found => get?_assign.1 found⟩
  rw [assign_congr (fun _ _ => rfl) w' w, ← assign_append, List.take_append_drop]

/-! ### The beginning -/

/-- Assigning sources to sections writes to the journal, and does nothing else. -/
theorem assign_state (sections : List (String × String)) (sources : Sources) (w : EventLoop) :
    ∃ timeline : Timeline, timeline.now = w.now ∧ timeline.sleeps = w.timeline.sleeps ∧
      (assign sections sources w).2.2 = { w with timeline } := by
  fun_induction assign sections sources w with
  | case1 _ w => exact ⟨w.timeline, rfl, rfl, rfl⟩
  | case2 _ _ _ _ _ _ _ _ _ _ assigned ih | case3 _ _ _ _ _ _ _ _ _ _ _ assigned ih =>
    rw [assigned] at ih
    exact ih

/-- When sources are given up, the registry is if its drain is among them. -/
theorem release_cases (entries : List (String × Source)) (w : EventLoop) :
    ((∃ name, (name, .sequence .patches) ∈ entries) ∧
        entries.foldl (fun w source => source.2.release w) w = w.close) ∨
      (∀ name, (name, .sequence .patches) ∉ entries) ∧
        entries.foldl (fun w source => source.2.release w) w = w := by
  induction entries generalizing w with
  | nil => exact .inr ⟨fun _ => List.not_mem_nil, rfl⟩
  | cons entry rest ih =>
    obtain ⟨name, source⟩ := entry
    rw [List.foldl_cons]
    have onward (kept : source.release w = w) (other : source ≠ .sequence .patches) :
        ((∃ name', (name', .sequence .patches) ∈ (name, source) :: rest) ∧
            rest.foldl (fun w source => source.2.release w) (source.release w) = w.close) ∨
          (∀ name', (name', .sequence .patches) ∉ (name, source) :: rest) ∧
            rest.foldl (fun w source => source.2.release w) (source.release w) = w := by
      rw [kept]
      refine (ih w).imp (And.imp_left fun ⟨name', behind⟩ => ⟨name', List.mem_cons_of_mem _ behind⟩)
        (And.imp_left fun none name' member => ?_)
      obtain here | behind := List.mem_cons.1 member
      · exact other (Prod.mk.inj here).2.symm
      · exact none name' behind
    rcases source with plain | r | (s | _)
    · exact onward rfl nofun
    · exact onward rfl nofun
    · exact onward rfl nofun
    · -- A registry that has been given up can be given up again.
      exact .inl ⟨⟨name, List.mem_cons_self⟩, (ih w.close).elim And.right And.right⟩

end TemplateStream

/-- The drain of the registry is among the sources, and no slot uses it. -/
def Sources.DropsDrain (sources : Sources) (t : Template) : Prop :=
  ∃ name, name ∉ t.slots ∧ Named.get? sources name = some (.sequence .patches)

namespace TemplateStream

/-- A template is begun: the registry is given up if no slot uses its drain, and nothing else happens but
    that missing sources are reported. -/
theorem start_state (t : Template) (sources : Sources) (w : EventLoop) :
    ∃ timeline : Timeline, timeline.now = w.now ∧ timeline.sleeps = w.timeline.sleeps ∧
      (sources.DropsDrain t ∧ (start t sources w).2 = { w.close with timeline } ∨
        ¬sources.DropsDrain t ∧ (start t sources w).2 = { w with timeline }) := by
  obtain ⟨timeline, now, sleeps, assigned⟩ := assign_state t.sections sources w
  -- What is left of the sources holds the drain if it was not used.
  have left (name : String) : (name, .sequence .patches) ∈ (assign t.sections sources w).2.1.entries ↔
      name ∉ t.slots ∧ Named.get? sources name = some (.sequence .patches) := by
    rw [← Named.get?_eq_some_iff, get?_assign, and_comm]
    simp [Template.slots]
  have begun : (start t sources w).2 = (assign t.sections sources w).2.1.entries.foldl
      (fun w source => source.2.release w) (assign t.sections sources w).2.2 := rfl
  rw [begun, assigned]
  refine ⟨timeline, now, sleeps, ?_⟩
  obtain ⟨⟨name, member⟩, same⟩ | ⟨unused, same⟩ :=
    release_cases (assign t.sections sources w).2.1.entries { w with timeline }
  · exact .inl ⟨⟨name, (left name).1 member⟩, same⟩
  · exact .inr ⟨fun ⟨name, dropped⟩ => unused name ((left name).2 dropped), same⟩

/-- The drain is dropped with either of two collections of sources that agree outside the template. -/
theorem dropsDrain_iff {t : Template} {sources sources' : Sources}
    (agree : ∀ name ∉ t.slots, Named.get? sources name = Named.get? sources' name) :
    sources.DropsDrain t ↔ sources'.DropsDrain t :=
  exists_congr fun name => and_congr_right fun unused => by rw [agree name unused]

/-- A template is begun with sources that agree outside it: two runs begin in the same way, one of them on
    its own. -/
theorem apart_start {t : Template} {sources sources' : Sources}
    (agree : ∀ name ∉ t.slots, Named.get? sources name = Named.get? sources' name) {shared : Bool}
    {own : Nat → Prop} {w : EventLoop} (parted : w.Parted shared own) :
    (Names.soFar w own).Apart shared own (start t sources w).2
      ((start t sources' w).2.onItsOwn shared) := by
  obtain ⟨timeline, now, sleeps, begun⟩ := start_state t sources w
  obtain ⟨timeline', now', sleeps', begun'⟩ := start_state t sources' w
  have apart := Names.Apart.start parted
  obtain ⟨drops, state⟩ | ⟨keeps, state⟩ := begun <;> obtain ⟨drops', state'⟩ | ⟨keeps', state'⟩ := begun'
  · rw [state, state']
    cases shared <;> exact apart.close.retime now now' sleeps sleeps'
  · exact absurd ((dropsDrain_iff agree).1 drops) keeps'
  · exact absurd ((dropsDrain_iff agree).2 drops') keeps
  · rw [state, state']
    cases shared <;> exact apart.retime now now' sleeps sleeps'

end TemplateStream

/-! ### Nothing is held back -/

/-- Sources for a template of which slot number `p` comes next, read from the state `w` on: those in front,
    and those that come first at this slot or behind it, with the contents `own`.  The late fragments are
    `shared` by those in front, or they belong to those that come later. -/
structure Sources.Fit (sources : Sources) (t : Template) (p : Nat) (shared : Bool) (own : Nat → Prop)
    (w : EventLoop) : Prop where
  front : ∀ name ∈ (t.upTo p).slots, ∀ source, Named.get? sources name = some source →
    source.FitsInFront shared own w
  behind : ∀ name ∈ t.slots, name ∉ (t.upTo p).slots → ∀ source, Named.get? sources name = some source →
    source.FitsBehind shared own

namespace TemplateStream

section

variable {t : Template} {p : Nat} {shared : Bool} {own : Nat → Prop} {sources : Sources} {u w v : EventLoop}

/-- A template that has been started has the pieces of the one that is cut off, and others behind them. -/
theorem inFront_start (fit : sources.Fit t p shared own u) (apart : (Names.soFar u own).Apart shared own w v)
    (before before' : EventLoop) :
    ∃ front behind, (start t sources before).1 = { pieces := front ++ behind } ∧
      (start (t.upTo p) sources before').1 = { pieces := front } ∧
      InFront shared (.soFar u own) own front front behind w v := by
  obtain ⟨left, u, placed, remains⟩ := assign_split t.sections p sources before
  have front := assign_same fit.front before'
  -- A source that stands in front as well has been taken there, and what is left of it is a text.
  have behind {r : Rendering} (member : r ∈ Piece.renderings (assign (t.sections.drop p) left u).1) :
      (Source.rendering r).FitsBehind shared own := by
    obtain ⟨name, here, found⟩ := Document.mem_assign member
    obtain ⟨found, isText⟩ := remains name _ found
    by_cases occursInFront : name ∈ (t.upTo p).slots
    · obtain ⟨_, same⟩ := isText occursInFront
      cases same
    · refine fit.behind name ?_ occursInFront _ found
      rw [Template.slots, ← List.take_append_drop p t.sections, List.map_append]
      exact List.mem_append_right _ here
  exact ⟨.segment t.opening :: (assign (t.sections.take p) sources before').1, _,
    congrArg (fun pieces => TemplateStream.mk 0 (.segment t.opening :: pieces) false) (placed before'), rfl,
    apart, .cons (.segment t.opening) front, fun r member => (behind member).1,
    fun r member => (behind member).2⟩

/-- Reading a template begins as reading the one that is cut off in front of a slot. -/
theorem begins_upTo (fit : sources.Fit t p shared own u) (apart : (Names.soFar u own).Apart shared own w v)
    (before before' : EventLoop) (patience most : Nat) (pacing : Pacing) :
    ∃ enough, ∀ turns, enough ≤ turns → Begins
      (toChunkStream.readWithin turns patience most pacing (start (t.upTo p) sources before').1 v).1
      (toChunkStream.readWithin turns patience most pacing (start t sources before).1 w).1 := by
  obtain ⟨front, behind, isWhole, isCut, inFront⟩ := inFront_start fit apart before before'
  rw [isWhole, isCut]
  exact inFront.read patience most 0 pacing

end

/-- Late fragments do hold something back.  A drain in front waits for the patch of a fragment that is handed
    in behind it, and the literal text between them comes no earlier than this patch.  And where fragments
    are handed in on both sides, the one in front shows another slot number. -/
theorem held_back_by_fragment :
    let late (delay timeout : Nat) : Source :=
      .ofNode (.defer ⟨.ofDelays "late" [delay] false, none, .ok "late"⟩ (.node ∘ .text)
        (.node (.text "wait")) none) (.deferringAfter .empty timeout)
    let t : Template := ⟨"", [("a", "|"), ("b", "")]⟩
    let sources (a b : Source) : Sources := .ofList [("a", a), ("b", b)]
    let read (a b : Source) := (toChunkStream.readWithin 2 100 3 {} (start t (sources a b) {}).1
      (start t (sources a b) {}).2).1.map (·.1)
    let placeholder (slot : Nat) : Chunk := .content (Markup.placeholder (Markup.slotName slot) "wait")
    let patch : Chunk := .patch (Markup.slotName 0) (Markup.patch (Markup.slotName 0) "late")
    (∀ a b b' name, name ∈ (t.upTo 1).slots ∨ name ∉ t.slots →
      Named.get? (sources a b) name = Named.get? (sources a b') name) ∧
    read (.sequence .patches) (.text "x") = .ok [⟨0, .literal "|"⟩, ⟨0, .content "x"⟩] ∧
    read (.sequence .patches) (late 20 0) =
      .ok [⟨20, patch⟩, ⟨20, .literal "|"⟩, ⟨20, placeholder 0⟩] ∧
    read (late 20 10) (.text "x") = .ok [⟨10, placeholder 0⟩, ⟨10, .literal "|"⟩, ⟨10, .content "x"⟩] ∧
    read (late 20 10) (late 20 0) = .ok [⟨10, placeholder 1⟩, ⟨10, .literal "|"⟩, ⟨10, placeholder 0⟩] := by
  intro late t sources read placeholder patch
  refine ⟨fun a b b' name here => ?_, ?_, ?_, ?_, ?_⟩
  · have other : name ≠ "b" := by
      rintro rfl
      simp [t, Template.slots, Template.upTo] at here
    simp [sources, Named.ofList, Named.get?_put, other]
  all_goals decide +kernel

/-- Nothing is held back by what comes later, if the late fragments concern one side only.  Two collections
    of sources agree on the names in front of slot number `p` and on those that the template does not use,
    and differ in any way on those that come first at this slot or behind it: these may take any time, fail
    at once, never settle or be absent.  Read at the same pace, both streams begin as the template that is cut
    off in front of the slot and read on its own: with the same chunks at the same times, up to and with the
    literal text in front of the slot, or with the same error. -/
theorem never_held_back (t : Template) (p : Nat) (shared : Bool) (own : Nat → Prop) {w : EventLoop}
    (parted : w.Parted shared own) {sources sources' : Sources} (fit : sources.Fit t p shared own w)
    (fit' : sources'.Fit t p shared own w)
    (agree : ∀ name, name ∈ (t.upTo p).slots ∨ name ∉ t.slots →
      Named.get? sources name = Named.get? sources' name)
    (patience most : Nat) (pacing : Pacing) : ∃ enough, ∀ turns, enough ≤ turns →
      let read (s : TemplateStream) (w : EventLoop) :=
        (toChunkStream.readWithin turns patience most pacing s w).1
      let first := read (start (t.upTo p) sources w).1 ((start t sources w).2.onItsOwn shared)
      Begins first (read (start t sources w).1 (start t sources w).2) ∧
        Begins first (read (start t sources' w).1 (start t sources' w).2) := by
  have outside {sources'' : Sources}
      (agree : ∀ name ∉ t.slots, Named.get? sources'' name = Named.get? sources name) :=
    apart_start agree parted
  have cut : (start (t.upTo p) sources w).1 = (start (t.upTo p) sources' w).1 :=
    congrArg (fun pieces => TemplateStream.mk 0 (.segment t.opening :: pieces) false)
      (assign_congr (fun name here => agree name (.inl here)) w w)
  obtain ⟨enough, begins⟩ := begins_upTo fit (outside fun _ _ => rfl) w w patience most pacing
  obtain ⟨enough', begins'⟩ :=
    begins_upTo fit' (outside fun name unused => (agree name (.inr unused)).symm) w w patience most pacing
  rw [← cut] at begins'
  refine ⟨max enough enough', fun turns more => ?_⟩
  rw [Nat.max_le] at more
  exact ⟨begins turns more.1, begins' turns more.2⟩

/-- In front stand a fragment that is deferred and the drain, and behind them a value that never settles, or
    one that fails at once.  Then a tree that is awaited stands in front, and behind it a fragment that is
    deferred, or nothing.  A reader who begins after five milliseconds gets the beginning at the same times. -/
theorem never_held_back_by_failure :
    let fragment : Node := .defer ⟨.ofDelays "late" [20] false, none, .ok "late"⟩ (.node ∘ .text)
      (.node (.text "wait")) none
    let body : Source := .ofNode fragment (.deferringAfter .empty 10)
    let value (never : Bool) (result : Except RenderError String) : Source :=
      .ofEventual ⟨.ofDelays "value" [] never, none, result⟩
    let read (turns : Nat) (s : TemplateStream) (w : EventLoop) :=
      (toChunkStream.readWithin turns 100 10 { pauses := [5, 2] } s w).1
    let first (turns : Nat) (t : Template) (p : Nat) (shared : Bool) (sources : Sources) :=
      read turns (start (t.upTo p) sources {}).1 ((start t sources {}).2.onItsOwn shared)
    let whole (turns : Nat) (t : Template) (sources : Sources) :=
      read turns (start t sources {}).1 (start t sources {}).2
    let t : Template := ⟨"<", [("body", "|"), ("patches", "-"), ("b", ">")]⟩
    let sources (b : Source) : Sources :=
      .ofList [("body", body), ("patches", .sequence .patches), ("b", b)]
    let waits := sources (value true (.ok "b"))
    let fails := sources (value false (.error .consumed))
    let t' : Template := ⟨"<", [("a", "|"), ("body", ">")]⟩
    let node : Node := .await ⟨.ofDelays "a" [10] false, none, ()⟩ (.node (.text "a"))
    let before : Sources := .ofList [("a", .ofNode node .empty)]
    let late : Sources := before.put "body" body
    ((first 2 t 2 true waits).map (·.1) = .ok [⟨5, .literal "<"⟩,
        ⟨15, .content (Markup.placeholder (Markup.slotName 0) "wait")⟩, ⟨15, .literal "|"⟩,
        ⟨25, .patch (Markup.slotName 0) (Markup.patch (Markup.slotName 0) "late")⟩,
        ⟨25, .literal "-"⟩] ∧
      ∃ enough, ∀ turns, enough ≤ turns →
        Begins (first turns t 2 true waits) (whole turns t waits) ∧
          Begins (first turns t 2 true waits) (whole turns t fails)) ∧
    (first 2 t' 1 false late).map (·.1) = .ok [⟨5, .literal "<"⟩, ⟨15, .content "a"⟩, ⟨15, .literal "|"⟩] ∧
      ∃ enough, ∀ turns, enough ≤ turns →
        Begins (first turns t' 1 false late) (whole turns t' late) ∧
          Begins (first turns t' 1 false late) (whole turns t' before) := by
  intro fragment body value read first whole t sources waits fails t' node before late
  have fresh : fragment.Fresh (.deferringAfter .empty 10) :=
    Node.fresh_defer.2 ⟨by simp [Pace.Unasked, Pace.ofDelays, Sleep.alarm?], trivial, trivial⟩
  have alone (shared : Bool) : EventLoop.Parted shared (fun _ => False) {} :=
    EventLoop.Alone.parted ⟨rfl, rfl⟩ (fun _ isUsed => absurd isUsed List.not_mem_nil) shared
  have inFront {name : String} : name ∈ (t.upTo 2).slots ↔ name = "body" ∨ name = "patches" := by
    simp [t, Template.slots, Template.upTo]
  have occurs {name : String} : name ∈ t.slots ↔ name = "body" ∨ name = "patches" ∨ name = "b" := by
    simp [t, Template.slots]
  have fit (never : Bool) (result : Except RenderError String) :
      (sources (value never result)).Fit t 2 true (fun _ => False) {} := by
    constructor
    · intro name here source found
      obtain rfl | rfl := inFront.1 here <;> obtain rfl := Option.some.inj found
      · exact Source.fitsInFront_ofNode fragment (fun _ => fresh) nofun
      · rfl
    · intro name here behind source found
      rw [inFront, not_or] at behind
      obtain rfl := ((occurs.1 here).resolve_left behind.1).resolve_left behind.2
      obtain rfl := Option.some.inj found
      exact Source.fitsBehind_ofEventual rfl
  have agree : ∀ name, name ∈ (t.upTo 2).slots ∨ name ∉ t.slots →
      Named.get? waits name = Named.get? fails name := by
    intro name here
    have other : name ≠ "b" := by
      rintro rfl
      simp [inFront, occurs] at here
    simp [waits, fails, sources, Named.ofList, Named.get?_put, other]
  refine ⟨⟨by decide +kernel, ?_⟩, by decide +kernel, ?_⟩
  · exact never_held_back t 2 true _ (alone true) (fit true (.ok "b")) (fit false (.error .consumed)) agree
      100 10 { pauses := [5, 2] }
  · have inFront {name : String} : name ∈ (t'.upTo 1).slots ↔ name = "a" := by
      simp [t', Template.slots, Template.upTo]
    have occurs {name : String} : name ∈ t'.slots ↔ name = "a" ∨ name = "body" := by
      simp [t', Template.slots]
    have same {name : String} (other : name ≠ "body") : Named.get? late name = Named.get? before name := by
      simp [late, Named.get?_put, other]
    have front : ∀ name ∈ (t'.upTo 1).slots, ∀ source, Named.get? before name = some source →
        source.FitsInFront false (fun _ => False) {} := by
      intro name here source found
      obtain rfl := inFront.1 here
      obtain rfl := Option.some.inj found
      exact Source.fitsInFront_ofNode node nofun fun _ => rfl
    have behind : body.FitsBehind false (fun _ => False) := by
      refine Source.fitsBehind_ofNode fragment (fun _ => fresh) nofun ?_
      exact .number _ fun first => .claim first <| .race _ (.note _ (.note _ (.number _ fun _ => .done _)))
        fun pace => .register _ fun slot => .note _ (.number _ fun _ => .done _)
    refine never_held_back t' 1 false _ (alone false) ⟨?_, ?_⟩ ⟨front, ?_⟩ ?_ 100 10 { pauses := [5, 2] }
    · intro name here
      rw [same (by simp [inFront.1 here])]
      exact front name here
    · intro name here notInFront source found
      obtain rfl := (occurs.1 here).resolve_left (mt inFront.2 notInFront)
      obtain rfl := Option.some.inj found
      exact behind
    · intro name here notInFront source found
      obtain rfl := (occurs.1 here).resolve_left (mt inFront.2 notInFront)
      cases found
    · intro name here
      refine same ?_
      rintro rfl
      simp [inFront, occurs] at here

end TemplateStream

end ProgressiveHtml
