import ProgressiveHtml.Proofs.Rendering.Same

namespace ProgressiveHtml

/-!
# Renderings — that keep to contents of their own

What else goes on in a run disturbs a rendering only through the contents that it uses up and through the
late fragments.  A rendering that keeps to some contents uses up only these and those that it numbers
itself, and hands in fragments, if it may, that do so too.

* `Rendering.KeepsTo` — a rendering that uses up only certain contents, with `Rendering.Same.keepsTo`;
* `EventLoop.Elsewhere` — what such renderings do to a state;
* `Rendering.KeepsTo.poll` — asking such a rendering;
* `Names.Synced.elsewhere` — two runs still agree about other contents when such renderings go on in one.
-/

/-! ### Sleeps that are started -/

section

variable (t : Timeline)

theorem Sleep.sleeps_poll (s : Sleep) : t.sleeps ≤ (s.poll t).2.sleeps := by
  unfold poll
  split
  · exact Nat.le_refl _
  · exact Nat.le_succ _
  · split <;> exact Nat.le_refl _

theorem Sleep.sleeps_pollAll (sleeps : List Sleep) : t.sleeps ≤ (pollAll sleeps t).2.sleeps := by
  induction sleeps generalizing t with
  | nil => exact Nat.le_refl _
  | cons s rest ih =>
    have first := s.sleeps_poll t
    rw [pollAll_cons]
    cases (s.poll t).1 with
    | none => exact Nat.le_trans first (ih _)
    | some left => exact first

theorem Pace.sleeps_poll (p : Pace) : t.sleeps ≤ (p.poll t).2.sleeps := by
  have begun : (p.begin t).sleeps = t.sleeps := by
    unfold begin
    split <;> rfl
  have started := Sleep.sleeps_pollAll (p.begin t) p.sleeps
  rw [begun] at started
  rw [poll_def]
  cases (Sleep.pollAll p.sleeps (p.begin t)).1 with
  | nil => cases p.never <;> exact started
  | cons => exact started

theorem Race.sleeps_poll (r : Race) : t.sleeps ≤ (r.poll t).2.sleeps := by
  have paced := r.pace.sleeps_poll t
  have timed := Nat.le_trans paced (r.timer.sleeps_poll (r.pace.poll t).2)
  rw [poll_def]
  cases (r.pace.poll t).1 with
  | none => exact paced
  | some pace => cases (r.timer.poll (r.pace.poll t).2).1 <;> exact timed

end

namespace Rendering

/-! ### Contents of one's own -/

/-- The rendering uses up only contents among `own` and those that it numbers itself, and so do the late
    fragments that it hands in; none unless `handsIn`. -/
inductive KeepsTo (handsIn : Bool) : (Nat → Prop) → Rendering → Prop
  | done (own : Nat → Prop) (markup : String) : KeepsTo handsIn own (.done markup)
  | failed (own : Nat → Prop) (error : RenderError) : KeepsTo handsIn own (.failed error)
  | panicked (own : Nat → Prop) (message : String) : KeepsTo handsIn own (.panicked message)
  | note {own : Nat → Prop} {next : Rendering} (event : Event) (onward : KeepsTo handsIn own next) :
      KeepsTo handsIn own (.note event next)
  | claim {own : Nat → Prop} {cell : Nat} {next : Rendering} (mine : own cell)
      (onward : KeepsTo handsIn own next) : KeepsTo handsIn own (.claim cell next)
  | number {own : Nat → Prop} (size : Nat) {next : Nat → Rendering}
      (onward : ∀ ⦃own' : Nat → Prop⦄ ⦃first : Nat⦄, (∀ cell, own cell → own' cell) →
        (∀ k < size, own' (first + k)) → KeepsTo handsIn own' (next first)) :
      KeepsTo handsIn own (.number size next)
  | outstanding {own : Nat → Prop} {next : Nat → Rendering}
      (onward : ∀ count, KeepsTo handsIn own (next count)) : KeepsTo handsIn own (.outstanding next)
  | register {own : Nat → Prop} {content next : Nat → Rendering} (may : handsIn = true)
      (contents : ∀ slot, KeepsTo handsIn own (content slot))
      (onward : ∀ slot, KeepsTo handsIn own (next slot)) : KeepsTo handsIn own (.register content next)
  | wait {own : Nat → Prop} {next : Rendering} (pace : Pace) (onward : KeepsTo handsIn own next) :
      KeepsTo handsIn own (.wait pace next)
  | race {own : Nat → Prop} {inTime : Rendering} {late : Pace → Rendering} (r : Race)
      (settled : KeepsTo handsIn own inTime) (timedOut : ∀ pace, KeepsTo handsIn own (late pace)) :
      KeepsTo handsIn own (.race r inTime late)
  | join {own : Nat → Prop} {parts : List Rendering} {next : List String → Rendering}
      (all : ∀ part ∈ parts, KeepsTo handsIn own part)
      (onward : ∀ texts, KeepsTo handsIn own (next texts)) : KeepsTo handsIn own (.join parts next)
  | attempt {own : Nat → Prop} {body : Rendering} {next : Except RenderError String → Rendering}
      (keeps : KeepsTo handsIn own body) (onward : ∀ result, KeepsTo handsIn own (next result)) :
      KeepsTo handsIn own (.attempt body next)

variable {handsIn : Bool} {own own' : Nat → Prop}

/-- What is over uses up nothing more. -/
theorem KeepsTo.of_isOver {r : Rendering} (ended : r.isOver = true) : KeepsTo handsIn own r := by
  cases r with
  | done markup => exact .done own markup
  | failed error => exact .failed own error
  | panicked message => exact .panicked own message
  | _ => cases ended

/-- A rendering that keeps to some contents keeps to more. -/
theorem KeepsTo.mono {r : Rendering} (keeps : KeepsTo handsIn own r)
    (within : ∀ cell, own cell → own' cell) : KeepsTo handsIn own' r := by
  induction keeps generalizing own' with
  | done _ markup => exact .done own' markup
  | failed _ error => exact .failed own' error
  | panicked _ message => exact .panicked own' message
  | note event _ ih => exact .note event (ih within)
  | claim mine _ ih => exact .claim (within _ mine) (ih within)
  | number size _ ih =>
    exact .number size fun _ _ more numbered => ih (fun cell mine => more cell (within cell mine))
      numbered fun _ => id
  | outstanding _ ih => exact .outstanding fun count => ih count within
  | register may _ _ ihContents ih =>
    exact .register may (fun slot => ihContents slot within) fun slot => ih slot within
  | wait pace _ ih => exact .wait pace (ih within)
  | race r _ _ ihSettled ih => exact .race r (ihSettled within) fun pace => ih pace within
  | join _ _ ihAll ih =>
    exact .join (fun part member => ihAll part member within) fun texts => ih texts within
  | attempt _ _ ihBody ih => exact .attempt (ihBody within) fun result => ih result within


mutual

/-- What is the same in another run keeps to the contents that correspond to some there, and hands in
    fragments only where these are shared. -/
theorem Same.keepsTo {shared : Bool} : ∀ {N : Names} {r r' : Rendering}, Same shared N r r' →
    ∀ {own : Nat → Prop}, (∀ a b, N.cells a b → own a) → KeepsTo shared own r
  | _, _, _, .done _ markup, own, _ => .done own markup
  | _, _, _, .failed _ error, own, _ => .failed own error
  | _, _, _, .panicked _ message, own, _ => .panicked own message
  | _, _, _, .note event _ onward, _, mine => .note event (onward.keepsTo mine)
  | _, _, _, .claim paired onward, _, mine => .claim (mine _ _ paired) (onward.keepsTo mine)
  | N, _, _, .number size onward, _, mine => .number size fun own' first within numbered =>
    -- In the other run the contents may get the same numbers.
    have more : N.Within { N with cells := N.cells.extend first first size } :=
      ⟨fun _ _ => .inl, fun _ _ => id⟩
    (onward more fun k less => .inr ⟨k, less, rfl, rfl⟩).keepsTo fun a b paired => by
      obtain before | ⟨k, less, rfl, -⟩ := paired
      · exact within a (mine a b before)
      · exact numbered k less
  | _, _, _, .outstanding _ onward, _, mine => .outstanding fun count => (onward count).keepsTo mine
  | _, _, _, .register isShared contents onward, _, mine =>
    .register isShared (fun slot => (contents slot).keepsTo mine) fun slot => (onward slot).keepsTo mine
  | _, _, _, .wait _ onward, _, mine => .wait _ (onward.keepsTo mine)
  | N, _, _, .race _ settled timedOut, _, mine => .race _ (settled.keepsTo mine) fun pace =>
    have more : N.Within { N with sleeps := fun a b => N.sleeps a b ∨ a = b } :=
      ⟨fun _ _ => id, fun _ _ => .inl⟩
    (timedOut more (pace.same_self fun _ => .inr rfl)).keepsTo mine
  | _, _, _, .join same onward, _, mine => .join (same.keepsTo mine) fun texts => (onward texts).keepsTo mine
  | _, _, _, .attempt same onward, _, mine =>
    .attempt (same.keepsTo mine) fun result => (onward result).keepsTo mine

theorem SameAll.keepsTo {shared : Bool} : ∀ {N : Names} {parts parts' : List Rendering},
    SameAll shared N parts parts' → ∀ {own : Nat → Prop}, (∀ a b, N.cells a b → own a) →
      ∀ part ∈ parts, KeepsTo shared own part
  | _, _, _, .nil _, _, _ => fun _ none => absurd none List.not_mem_nil
  | _, _, _, .cons first others, _, mine =>
    List.forall_mem_cons.2 ⟨first.keepsTo mine, others.keepsTo mine⟩

end

end Rendering

/-- What renderings do to a state that keep to contents of their own, which grow from `own` to `own'`. -/
structure EventLoop.Elsewhere (handsIn : Bool) (own own' : Nat → Prop) (w w' : EventLoop) : Prop where
  now : w'.now = w.now
  within : ∀ cell, own cell → own' cell
  fresh : ∀ cell, own' cell → own cell ∨ w.cells ≤ cell
  cells : w.cells ≤ w'.cells
  sleeps : w.timeline.sleeps ≤ w'.timeline.sleeps
  used : w.used ⊆ w'.used
  spent : ∀ cell ∈ w'.used, cell ∈ w.used ∨ own' cell
  /-- What they numbered themselves has been numbered. -/
  known : (∀ cell, own cell → cell < w.cells) → ∀ cell, own' cell → cell < w'.cells
  registry : handsIn = false → w'.registry = w.registry
  tasks : ∀ task ∈ w'.registry.tasks, task ∈ w.registry.tasks ∨ task.work.KeepsTo handsIn own'

namespace EventLoop.Elsewhere

variable {handsIn : Bool} {own own' own'' : Nat → Prop} {w w' w'' : EventLoop}

theorem refl (own : Nat → Prop) (w : EventLoop) : Elsewhere handsIn own own w w where
  now := rfl
  within _ := id
  fresh _ := .inl
  cells := Nat.le_refl _
  sleeps := Nat.le_refl _
  used _ := id
  spent _ := .inl
  known := id
  registry _ := rfl
  tasks _ := .inl

theorem trans (first : Elsewhere handsIn own own' w w') (second : Elsewhere handsIn own' own'' w' w'') :
    Elsewhere handsIn own own'' w w'' where
  now := second.now.trans first.now
  within cell mine := second.within cell (first.within cell mine)
  fresh cell mine := (second.fresh cell mine).elim (first.fresh cell)
    fun later => .inr (Nat.le_trans first.cells later)
  cells := Nat.le_trans first.cells second.cells
  sleeps := Nat.le_trans first.sleeps second.sleeps
  used := List.Subset.trans first.used second.used
  spent cell isUsed := by
    obtain before | mine := second.spent cell isUsed
    · exact (first.spent cell before).imp_right (second.within cell)
    · exact .inr mine
  known known := second.known (first.known known)
  registry apart := (second.registry apart).trans (first.registry apart)
  tasks task here := by
    obtain before | keeps := second.tasks task here
    · exact (first.tasks task before).imp_right fun keeps => keeps.mono second.within
    · exact .inr keeps

/-- Something is written to the journal, or sleeps are started. -/
theorem timeline (own : Nat → Prop) (w : EventLoop) {timeline : Timeline}
    (now : timeline.now = w.timeline.now) (sleeps : w.timeline.sleeps ≤ timeline.sleeps) :
    Elsewhere handsIn own own w { w with timeline } :=
  { refl own w with now := now, sleeps := sleeps }

/-- A content is used up. -/
theorem claim {cell : Nat} (mine : own cell) (w : EventLoop) :
    Elsewhere handsIn own own w { w with used := cell :: w.used } :=
  { refl own w with
    used := List.subset_cons_self _ _
    spent := fun _ isUsed => (List.mem_cons.1 isUsed).elim (fun same => .inr (same ▸ mine)) .inl }

/-- Contents are numbered. -/
theorem number (own : Nat → Prop) (w : EventLoop) (size : Nat) :
    Elsewhere handsIn own (fun cell => own cell ∨ ∃ k < size, cell = w.cells + k) w
      { w with cells := w.cells + size } where
  now := rfl
  within _ := .inl
  fresh := by
    rintro cell (mine | ⟨k, _, rfl⟩)
    · exact .inl mine
    · exact .inr (Nat.le_add_right _ _)
  cells := Nat.le_add_right _ _
  sleeps := Nat.le_refl _
  used _ := id
  spent _ := .inl
  known := by
    rintro known cell (mine | ⟨k, less, rfl⟩)
    · exact Nat.lt_add_right _ (known cell mine)
    · exact Nat.add_lt_add_left less _
  registry _ := rfl
  tasks _ := .inl

/-- A fragment is handed in. -/
theorem register (may : handsIn = true) {content : Nat → Rendering}
    (contents : ∀ slot, (content slot).KeepsTo handsIn own) (w : EventLoop) :
    Elsewhere handsIn own own w (w.register content).2 :=
  { (refl own w : Elsewhere handsIn own own w w) with
    registry := fun apart => absurd (may.symm.trans apart) nofun
    tasks := fun task here => (Registry.mem_register here).imp_right <| by
      rintro rfl
      exact contents _ }

end EventLoop.Elsewhere

namespace Rendering

/-- Asked in any state, the rendering keeps to contents of its own, which are at least `own`. -/
def GoesOn (handsIn : Bool) (own : Nat → Prop) (r : Rendering) : Prop :=
  ∀ ⦃mine : Nat → Prop⦄, (∀ cell, own cell → mine cell) → ∀ w : EventLoop, ∃ own',
    w.Elsewhere handsIn mine own' (r.poll w).2 ∧ KeepsTo handsIn own' (r.poll w).1

variable {handsIn : Bool} {own mine : Nat → Prop}

/-- Siblings of which each goes on keeping to contents of its own do so in a group. -/
theorem GoesOn.pollAll {parts : List Rendering} (each : ∀ part ∈ parts, GoesOn handsIn own part)
    (all : ∀ part ∈ parts, KeepsTo handsIn own part) (prompt settled : Bool)
    (within : ∀ cell, own cell → mine cell) (w : EventLoop) : ∃ own',
      w.Elsewhere handsIn mine own' (pollAll prompt settled parts w).2 ∧
        ∀ part ∈ (Rendering.pollAll prompt settled parts w).1, KeepsTo handsIn own' part := by
  induction parts generalizing mine settled w with
  | nil => exact ⟨mine, .refl mine w, fun _ none => absurd none List.not_mem_nil⟩
  | cons part rest ih =>
    rw [List.forall_mem_cons] at each all
    obtain ⟨own', elsewhere, keeps⟩ := each.1 within w
    have within' (cell : Nat) (isOwn : own cell) : own' cell := elsewhere.within cell (within cell isOwn)
    rw [pollAll_cons]
    split
    · exact ⟨own', elsewhere, List.forall_mem_cons.2 ⟨keeps, fun other member =>
        (all.2 other member).mono within'⟩⟩
    · obtain ⟨own'', onward, others⟩ :=
        ih each.2 all.2 (settled && (part.poll w).1.isDone) within' (part.poll w).2
      exact ⟨own'', elsewhere.trans onward,
        List.forall_mem_cons.2 ⟨keeps.mono onward.within, others⟩⟩

/-- Going on after something has changed the state. -/
theorem GoesOn.after {r : Rendering} {own' : Nat → Prop} (goesOn : GoesOn handsIn own r)
    {w w' : EventLoop} (within : ∀ cell, own cell → own' cell)
    (first : w.Elsewhere handsIn mine own' w') : ∃ own'',
      w.Elsewhere handsIn mine own'' (r.poll w').2 ∧ KeepsTo handsIn own'' (r.poll w').1 := by
  obtain ⟨own'', onward, keeps⟩ := goesOn within w'
  exact ⟨own'', first.trans onward, keeps⟩

/-- A rendering that keeps to contents of its own does so when it is asked. -/
theorem KeepsTo.goesOn {r : Rendering} (keeps : KeepsTo handsIn own r) : GoesOn handsIn own r := by
  induction keeps with
  | done own markup => exact fun mine _ w => ⟨mine, .refl mine w, .done mine markup⟩
  | failed own error => exact fun mine _ w => ⟨mine, .refl mine w, .failed mine error⟩
  | panicked own message => exact fun mine _ w => ⟨mine, .refl mine w, .panicked mine message⟩
  | note event _ ih =>
    exact fun mine within w => ih.after within (.timeline mine w rfl (Nat.le_refl _))
  | @claim _ cell next isOwn _ ih =>
    intro mine within w
    rw [poll]
    split
    · exact ⟨mine, .refl mine w, .failed mine .consumed⟩
    · exact ih.after within (.claim (within cell isOwn) w)
  | number size _ ih =>
    intro mine within w
    have numbered : ∀ k < size, mine (w.cells + k) ∨ ∃ j < size, w.cells + k = w.cells + j :=
      fun k less => .inr ⟨k, less, rfl⟩
    exact (ih (fun cell isOwn => .inl (within cell isOwn)) numbered).after (fun _ => id)
      (.number mine w size)
  | outstanding _ ih => exact fun _ within w => ih w.registry.pending within w
  | @register _ content next may contents _ _ ih =>
    intro mine within w
    have contents (slot : Nat) := (contents slot).mono within
    exact (ih (w.register content).1).after within (.register may contents w)
  | @wait _ next pace onward ih =>
    intro mine within w
    have first : w.Elsewhere handsIn mine mine { w with timeline := (pace.poll w.timeline).2 } :=
      .timeline mine w (pace.poll_now _) (pace.sleeps_poll _)
    rw [poll_wait]
    cases (pace.poll w.timeline).1 with
    | none => exact ih.after within first
    | some left => exact ⟨mine, first, .wait left (onward.mono within)⟩
  | @race _ inTime late r settled timedOut ihSettled ihLate =>
    intro mine within w
    have first : w.Elsewhere handsIn mine mine { w with timeline := (r.poll w.timeline).2 } :=
      .timeline mine w (r.poll_now _) (r.sleeps_poll _)
    rw [poll_race]
    cases (r.poll w.timeline).1 with
    | settled => exact ihSettled.after within first
    | timedOut pace => exact (ihLate pace).after within first
    | running left =>
      exact ⟨mine, first, .race left (settled.mono within) fun pace => (timedOut pace).mono within⟩
  | @join _ parts next all onward ihAll ih =>
    intro mine within w
    obtain ⟨own', elsewhere, kept⟩ := GoesOn.pollAll ihAll all (isPrompt parts.length) true within w
    have within' (cell : Nat) (isOwn : _) : own' cell := elsewhere.within cell (within cell isOwn)
    rw [poll_join]
    cases verdict (Rendering.pollAll (isPrompt parts.length) true parts w).1 with
    | complete texts => exact (ih texts).after within' elsewhere
    | failed error => exact ⟨own', elsewhere, .failed own' error⟩
    | panicked message => exact ⟨own', elsewhere, .panicked own' message⟩
    | waiting => exact ⟨own', elsewhere, .join kept fun texts => (onward texts).mono within'⟩
  | @attempt _ body next _ onward ihBody ih =>
    intro mine within w
    obtain ⟨own', elsewhere, kept⟩ := ihBody within w
    have within' (cell : Nat) (isOwn : _) : own' cell := elsewhere.within cell (within cell isOwn)
    by_cases waits : (body.poll w).1.isOver = false
    · rw [poll_attempt_of_waits waits]
      exact ⟨own', elsewhere, .attempt kept fun result => (onward result).mono within'⟩
    · rw [poll_attempt]
      generalize (body.poll w).1 = left at waits
      cases left with
      | done markup => exact (ih (.ok markup)).after within' elsewhere
      | failed error => exact (ih (.error error)).after within' elsewhere
      | panicked message => exact ⟨own', elsewhere, .panicked own' message⟩
      | _ => exact absurd rfl waits

/-- A rendering that keeps to contents of its own is asked. -/
theorem KeepsTo.poll {r : Rendering} (keeps : KeepsTo handsIn own r) (w : EventLoop) : ∃ own',
    w.Elsewhere handsIn own own' (r.poll w).2 ∧ KeepsTo handsIn own' (r.poll w).1 :=
  keeps.goesOn (fun _ => id) w

end Rendering

/-! ### What goes on elsewhere -/

/-- Agreement about other contents is kept by what goes on elsewhere; where late fragments are shared, this
    hands in none. -/
theorem Names.Synced.elsewhere {shared : Bool} {N : Names} {own own' : Nat → Prop} {w w' v : EventLoop}
    (synced : N.Synced shared w v) (elsewhere : w.Elsewhere (!shared) own own' w')
    (known : ∀ cell, own cell → cell < w.cells) (apart : ∀ ⦃a b⦄, N.cells a b → ¬own a) :
    N.Synced shared w' v ∧ ∀ ⦃a b⦄, N.cells a b → ¬own' a := by
  -- What has been numbered elsewhere since is not among the contents that correspond.
  have apart ⦃a b⦄ (paired : N.cells a b) (mine : own' a) : False := by
    obtain before | new := elsewhere.fresh a mine
    · exact apart paired before
    · exact absurd (synced.contents.known paired).1 (Nat.not_lt.2 new)
  refine ⟨⟨?_, ?_, ?_⟩, apart⟩
  · refine { synced.contents with now := ?_, known := ?_, used := ?_, numbered := ?_ }
    · exact elsewhere.now.trans synced.contents.now
    · exact fun a b paired => (synced.contents.known paired).imp_left fun less =>
        Nat.lt_of_lt_of_le less elsewhere.cells
    · intro a b paired
      rw [← synced.contents.used paired]
      refine ⟨fun isUsed => ?_, fun isUsed => elsewhere.used isUsed⟩
      exact (elsewhere.spent a isUsed).resolve_right fun mine => apart paired mine
    · refine ⟨fun cell isUsed => ?_, synced.contents.numbered.2⟩
      obtain before | mine := elsewhere.spent cell isUsed
      · exact Nat.lt_of_lt_of_le (synced.contents.numbered.1 cell before) elsewhere.cells
      · exact elsewhere.known known cell mine
  · exact synced.paced.later (elsewhere.now.trans synced.paced.now) elsewhere.sleeps (Nat.le_refl _)
  · rintro rfl
    rw [elsewhere.registry rfl]
    exact synced.registry rfl

end ProgressiveHtml
