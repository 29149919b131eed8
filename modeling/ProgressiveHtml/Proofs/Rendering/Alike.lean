import Mathlib.Data.List.Forall2
import ProgressiveHtml.Proofs.Rendering.Ending

namespace ProgressiveHtml

/-!
# Renderings — the same at another time and under other numbers

Two renderings are alike when they differ only in what cannot be seen of them: in when they began, in
the numbers of the contents that they use up, and in what they write to the journal.  Asked at the
corresponding instants, they remain alike.

* `Pairing`, `Pairing.Synced` — which contents correspond, in states that agree about them;
* `Rendering.Alike` — the correspondence of renderings;
* `Pairing.Grows` — what a rendering that keeps to itself does to a state;
* `Rendering.Alike.poll` — asking renderings that are alike;
* `Rendering.Alike.alarms` — the sleeps that they wait for.
-/

/-! ### Corresponding contents -/

/-- Which contents of one run are which contents of another. -/
abbrev Pairing := Nat → Nat → Prop

namespace Pairing

/-- Everything that corresponds does so in a larger pairing. -/
def Within (ρ ρ' : Pairing) : Prop := ∀ ⦃a b⦄, ρ a b → ρ' a b

/-- The pairing extended by the next contents of two states, in order. -/
def extend (ρ : Pairing) (first second size : Nat) : Pairing := fun a b =>
  ρ a b ∨ ∃ k < size, a = first + k ∧ b = second + k

/-- Two states agree about the contents that correspond, the first being later by `shift`. -/
structure Synced (shift : Nat) (ρ : Pairing) (w v : EventLoop) : Prop where
  now : w.now = v.now + shift
  /-- No content corresponds to two others. -/
  unique : ∀ ⦃a b a' b'⦄, ρ a b → ρ a' b' → (a = a' ↔ b = b')
  /-- What corresponds has been numbered. -/
  known : ∀ ⦃a b⦄, ρ a b → a < w.cells ∧ b < v.cells
  /-- What corresponds is used up on both sides or on neither. -/
  used : ∀ ⦃a b⦄, ρ a b → (a ∈ w.used ↔ b ∈ v.used)
  /-- Only contents that were numbered are used up. -/
  numbered : (∀ cell ∈ w.used, cell < w.cells) ∧ ∀ cell ∈ v.used, cell < v.cells

/-- What a rendering does to a state while the contents paired grow from `ρ` to `ρ'`: it numbers new
    contents, and uses up only its own. -/
structure Grows (ρ ρ' : Pairing) (w w' : EventLoop) : Prop where
  within : ρ.Within ρ'
  fresh : ∀ ⦃a b⦄, ρ' a b → ρ a b ∨ w.cells ≤ a
  cells : w.cells ≤ w'.cells
  used : w.used ⊆ w'.used
  own : ∀ cell ∈ w'.used, cell ∈ w.used ∨ ∃ b, ρ' cell b
  registry : w'.registry = w.registry
  now : w'.now = w.now

namespace Grows

variable {ρ ρ' ρ'' : Pairing} {w w' w'' : EventLoop}

theorem refl (ρ : Pairing) (w : EventLoop) : Grows ρ ρ w w :=
  ⟨fun _ _ => id, fun _ _ => .inl, Nat.le_refl _, fun _ => id, fun _ => .inl, rfl, rfl⟩

theorem trans (first : Grows ρ ρ' w w') (second : Grows ρ' ρ'' w' w'') : Grows ρ ρ'' w w'' where
  within _ _ paired := second.within (first.within paired)
  fresh _ _ paired := (second.fresh paired).elim (fun before => first.fresh before)
    fun later => .inr (Nat.le_trans first.cells later)
  cells := Nat.le_trans first.cells second.cells
  used := List.Subset.trans first.used second.used
  own cell isUsed := by
    obtain before | own := second.own cell isUsed
    · exact (first.own cell before).imp_right fun ⟨b, paired⟩ => ⟨b, second.within paired⟩
    · exact .inr own
  registry := second.registry.trans first.registry
  now := second.now.trans first.now

/-- Something is written to the journal, or a sleep is started. -/
theorem timeline (ρ : Pairing) (w : EventLoop) {timeline : Timeline}
    (now : timeline.now = w.timeline.now) : Grows ρ ρ w { w with timeline } :=
  { refl ρ w with now := now }

/-- Contents are numbered. -/
theorem number (ρ : Pairing) (w : EventLoop) (second size : Nat) :
    Grows ρ (ρ.extend w.cells second size) w { w with cells := w.cells + size } where
  within _ _ := .inl
  fresh a b paired := by
    obtain before | ⟨k, -, rfl, -⟩ := paired
    · exact .inl before
    · exact .inr (Nat.le_add_right _ _)
  cells := Nat.le_add_right _ _
  used _ := id
  own _ := .inl
  registry := rfl
  now := rfl

/-- A content is used up. -/
theorem claim {a b : Nat} (paired : ρ a b) (w : EventLoop) :
    Grows ρ ρ w { w with used := a :: w.used } :=
  { refl ρ w with
    used := List.subset_cons_self _ _
    own := fun _ isUsed => (List.mem_cons.1 isUsed).elim
      (fun same => .inr ⟨b, same ▸ paired⟩) .inl }

end Grows

namespace Synced

variable {shift : Nat} {ρ : Pairing} {w v : EventLoop}

/-- At first no contents correspond. -/
theorem nothing (now : w.now = v.now + shift) (numbered : ∀ cell ∈ w.used, cell < w.cells)
    (numbered' : ∀ cell ∈ v.used, cell < v.cells) : Synced shift (fun _ _ => False) w v where
  now := now
  unique := fun _ _ _ _ none => none.elim
  known := fun _ _ none => none.elim
  used := fun _ _ none => none.elim
  numbered := ⟨numbered, numbered'⟩

/-- Time is told the same way after something was written down on either side. -/
theorem timeline (synced : Synced shift ρ w v) {first second : Timeline}
    (now : first.now = w.timeline.now) (now' : second.now = v.timeline.now) :
    Synced shift ρ { w with timeline := first } { v with timeline := second } :=
  { synced with now := now.trans (synced.now.trans (congrArg (· + shift) now'.symm)) }

/-- Both sides number contents. -/
theorem number (synced : Synced shift ρ w v) (size : Nat) :
    Synced shift (ρ.extend w.cells v.cells size) { w with cells := w.cells + size }
      { v with cells := v.cells + size } where
  now := synced.now
  unique := by
    rintro a b a' b' (before | ⟨k, _, rfl, rfl⟩) (before' | ⟨k', _, rfl, rfl⟩)
    · exact synced.unique before before'
    · have known := synced.known before
      omega
    · have known := synced.known before'
      omega
    · omega
  known := by
    rintro a b (before | ⟨k, _, rfl, rfl⟩)
    · have known := synced.known before
      dsimp only
      omega
    · dsimp only
      omega
  used := by
    rintro a b (before | ⟨k, _, rfl, rfl⟩)
    · exact synced.used before
    · -- What has just been numbered is not used up yet.
      have fresh : w.cells + k ∉ w.used := fun isUsed => by
        have known := synced.numbered.1 _ isUsed
        omega
      have fresh' : v.cells + k ∉ v.used := fun isUsed => by
        have known := synced.numbered.2 _ isUsed
        omega
      exact iff_of_false fresh fresh'
  numbered := ⟨fun cell isUsed => Nat.lt_add_right _ (synced.numbered.1 cell isUsed),
    fun cell isUsed => Nat.lt_add_right _ (synced.numbered.2 cell isUsed)⟩

/-- Both sides use up a content. -/
theorem claim (synced : Synced shift ρ w v) {a b : Nat} (paired : ρ a b) :
    Synced shift ρ { w with used := a :: w.used } { v with used := b :: v.used } where
  now := synced.now
  unique := synced.unique
  known := synced.known
  used a' b' paired' := by
    simp only [List.mem_cons, synced.unique paired' paired, synced.used paired']
  numbered := by
    constructor
    · rintro cell (_ | ⟨_, before⟩)
      · exact (synced.known paired).1
      · exact synced.numbered.1 cell before
    · rintro cell (_ | ⟨_, before⟩)
      · exact (synced.known paired).2
      · exact synced.numbered.2 cell before

/-- At one instant the two sides play the same part. -/
theorem symm (synced : Synced 0 ρ w v) : Synced 0 (flip ρ) v w where
  now := synced.now.symm
  unique _ _ _ _ paired paired' := (synced.unique paired paired').symm
  known _ _ paired := (synced.known paired).symm
  used _ _ paired := (synced.used paired).symm
  numbered := synced.numbered.symm

/-- Time is told the same way when both sides go to corresponding instants, whatever happens to the
    registries. -/
theorem pass (synced : Synced shift ρ w v) {w' : EventLoop} {now : Nat} (present : w'.now = now + shift)
    (cells : w'.cells = w.cells) (used : w'.used = w.used) : Synced shift ρ w' (v.movedTo now) where
  now := present
  unique := synced.unique
  known := cells ▸ synced.known
  used := used ▸ synced.used
  numbered := cells ▸ used ▸ synced.numbered

/-- What is known of the contents does not depend on the rest of a state. -/
theorem congr (synced : Synced shift ρ w v) {w' : EventLoop} (now : w'.now = w.now)
    (cells : w'.cells = w.cells) (used : w'.used = w.used) : Synced shift ρ w' v :=
  synced.pass (now.trans synced.now) cells used

/-- Agreement about other contents is kept by a rendering that uses up only its own. -/
theorem aside (synced : Synced shift ρ w v) {own own' : Pairing} {w' : EventLoop}
    (grows : own.Grows own' w w') (numbered : ∀ cell ∈ w'.used, cell < w'.cells)
    (apart : ∀ ⦃a b b'⦄, ρ a b → ¬own' a b') : Synced shift ρ w' v where
  now := grows.now.trans synced.now
  unique := synced.unique
  known a b paired :=
    ⟨Nat.lt_of_lt_of_le (synced.known paired).1 grows.cells, (synced.known paired).2⟩
  used a b paired := by
    rw [← synced.used paired]
    refine ⟨fun isUsed => ?_, fun isUsed => grows.used isUsed⟩
    obtain before | ⟨b', isOwn⟩ := grows.own a isUsed
    · exact before
    · exact absurd isOwn (apart paired)
  numbered := ⟨numbered, synced.numbered.2⟩

end Synced

end Pairing

/-! ### Corresponding sleeps -/

/-- A sleep and the same one begun earlier by `shift`. -/
def Sleep.Alike (shift : Nat) : Sleep → Sleep → Prop
  | idle length, idle length' => length = length'
  | running alarm, running alarm' => alarm.deadline = alarm'.deadline + shift
  | _, _ => False

/-- A pace and the same one begun earlier by `shift`. -/
structure Pace.Alike (shift : Nat) (p p' : Pace) : Prop where
  sleeps : List.Forall₂ (Sleep.Alike shift) p.sleeps p'.sleeps
  never : p.never = p'.never

/-- None of the sleeps of a pace is running: it was not asked yet. -/
def Pace.Unasked (p : Pace) : Prop := ∀ s ∈ p.sleeps, s.alarm? = none

/-- The sleeps of a pace that was not asked yet are the same whenever it begins. -/
theorem Pace.Unasked.sleeps {p : Pace} (unasked : p.Unasked) (shift : Nat) :
    List.Forall₂ (Sleep.Alike shift) p.sleeps p.sleeps := by
  refine List.forall₂_same.2 fun s member => ?_
  cases s with
  | idle => rfl
  | running => cases unasked _ member

/-- A sleep is like itself. -/
theorem Sleep.Alike.refl (s : Sleep) : s.Alike 0 s := by
  cases s <;> rfl

/-- A pace is like itself. -/
theorem Pace.Alike.refl (p : Pace) : p.Alike 0 p :=
  ⟨List.forall₂_same.2 fun s _ => .refl s, rfl⟩

/-- A value takes the same time whatever its number is. -/
theorem Eventual.numbered_alike {α : Type} (value : Eventual α) (cell cell' : Nat) :
    (value.numbered cell).pace.Alike 0 (value.numbered cell').pace :=
  ⟨(Pace.Alike.refl value.pace).sleeps, rfl⟩

section

variable {shift : Nat} {t t' : Timeline}

/-- Sleeps that are alike are over at corresponding instants. -/
theorem Sleep.Alike.poll {s s' : Sleep} (alike : s.Alike shift s') (present : t.now = t'.now + shift) :
    Option.Rel (Sleep.Alike shift) (s.poll t).1 (s'.poll t').1 := by
  cases s <;> cases s' <;> simp only [Alike] at alike
  case idle.idle length length' =>
    subst alike
    cases length with
    | zero => exact .none
    | succ length =>
      refine .some ?_
      show t.now + (length + 1) = t'.now + (length + 1) + shift
      omega
  case running.running alarm alarm' =>
    by_cases ended : alarm'.deadline ≤ t'.now
    · rw [Sleep.poll, Sleep.poll, if_pos ended, if_pos (by omega)]
      exact .none
    · rw [Sleep.poll, Sleep.poll, if_neg ended, if_neg (by omega)]
      exact .some alike

theorem Sleep.Alike.pollAll {sleeps sleeps' : List Sleep}
    (alike : List.Forall₂ (Sleep.Alike shift) sleeps sleeps') (present : t.now = t'.now + shift) :
    List.Forall₂ (Sleep.Alike shift) (pollAll sleeps t).1 (pollAll sleeps' t').1 := by
  induction alike generalizing t t' with
  | nil => exact .nil
  | @cons s s' rest rest' same others ih =>
    have polled := same.poll present
    rw [Sleep.pollAll_cons, Sleep.pollAll_cons]
    generalize (s.poll t).1 = left, (s'.poll t').1 = left' at polled
    cases polled with
    | none => exact ih (by rw [s.poll_now, s'.poll_now, present])
    | some left => exact .cons left others

/-- Paces that are alike settle at corresponding instants. -/
theorem Pace.Alike.poll {p p' : Pace} (alike : p.Alike shift p') (present : t.now = t'.now + shift) :
    Option.Rel (Pace.Alike shift) (p.poll t).1 (p'.poll t').1 := by
  have begun : (p.begin t).now = (p'.begin t').now + shift := by simpa using present
  have polled := Sleep.Alike.pollAll alike.sleeps begun
  rw [Pace.poll_def, Pace.poll_def]
  generalize (Sleep.pollAll p.sleeps (p.begin t)).1 = left,
    (Sleep.pollAll p'.sleeps (p'.begin t')).1 = left' at polled
  cases polled with
  | nil =>
    rw [← alike.never]
    cases p.never with
    | true => exact .some ⟨.nil, rfl⟩
    | false => exact .none
  | cons first rest => exact .some ⟨.cons first rest, alike.never⟩

/-- Paces that are alike wait for sleeps that end at corresponding instants. -/
theorem Pace.Alike.alarm {p p' : Pace} (alike : p.Alike shift p') :
    Option.Rel (fun alarm alarm' : Alarm => alarm.deadline = alarm'.deadline + shift) p.alarm?
      p'.alarm? := by
  obtain ⟨sleeps, -⟩ := alike
  rw [Pace.alarm?, Pace.alarm?]
  generalize p.sleeps = sleeps, p'.sleeps = sleeps' at sleeps
  cases sleeps with
  | nil => exact .none
  | @cons s s' _ _ first _ =>
    cases s <;> cases s' <;> simp only [Sleep.Alike] at first
    · exact .none
    · exact .some first

end

namespace Rendering

/-! ### Corresponding renderings -/

mutual

/-- Two renderings that keep to themselves differ only in the contents that correspond in `ρ`, in their
    entries in the journal, and in that the first began later by `shift`. -/
inductive Alike (shift : Nat) : Pairing → Rendering → Rendering → Prop
  | done (ρ : Pairing) (markup : String) : Alike shift ρ (.done markup) (.done markup)
  | failed (ρ : Pairing) (error : RenderError) : Alike shift ρ (.failed error) (.failed error)
  | panicked (ρ : Pairing) (message : String) :
      Alike shift ρ (.panicked message) (.panicked message)
  | note {ρ : Pairing} {next next' : Rendering} (event event' : Event)
      (onward : Alike shift ρ next next') : Alike shift ρ (.note event next) (.note event' next')
  | claim {ρ : Pairing} {cell cell' : Nat} {next next' : Rendering} (paired : ρ cell cell')
      (onward : Alike shift ρ next next') : Alike shift ρ (.claim cell next) (.claim cell' next')
  /-- Whatever numbers the contents get, those in the same place correspond. -/
  | number {ρ : Pairing} (size : Nat) {next next' : Nat → Rendering}
      (onward : ∀ ⦃ρ' : Pairing⦄ ⦃first first' : Nat⦄, ρ.Within ρ' →
        (∀ k < size, ρ' (first + k) (first' + k)) → Alike shift ρ' (next first) (next' first')) :
      Alike shift ρ (.number size next) (.number size next')
  | wait {ρ : Pairing} {pace pace' : Pace} {next next' : Rendering} (paces : pace.Alike shift pace')
      (onward : Alike shift ρ next next') : Alike shift ρ (.wait pace next) (.wait pace' next')
  | join {ρ : Pairing} {parts parts' : List Rendering} {next next' : List String → Rendering}
      (alike : AlikeAll shift ρ parts parts')
      (onward : ∀ texts, Alike shift ρ (next texts) (next' texts)) :
      Alike shift ρ (.join parts next) (.join parts' next')
  | attempt {ρ : Pairing} {body body' : Rendering} {next next' : Except RenderError String → Rendering}
      (alike : Alike shift ρ body body')
      (onward : ∀ result, Alike shift ρ (next result) (next' result)) :
      Alike shift ρ (.attempt body next) (.attempt body' next')

/-- Siblings are alike one by one. -/
inductive AlikeAll (shift : Nat) : Pairing → List Rendering → List Rendering → Prop
  | nil (ρ : Pairing) : AlikeAll shift ρ [] []
  | cons {ρ : Pairing} {part part' : Rendering} {rest rest' : List Rendering}
      (first : Alike shift ρ part part') (others : AlikeAll shift ρ rest rest') :
      AlikeAll shift ρ (part :: rest) (part' :: rest')

end

variable {shift : Nat}

mutual

/-- What is alike stays so when more contents correspond. -/
theorem Alike.mono : ∀ {ρ ρ' : Pairing} {r r' : Rendering}, Alike shift ρ r r' → ρ.Within ρ' →
    Alike shift ρ' r r'
  | _, _, _, _, .done _ markup, _ => .done _ markup
  | _, _, _, _, .failed _ error, _ => .failed _ error
  | _, _, _, _, .panicked _ message, _ => .panicked _ message
  | _, _, _, _, .note event event' onward, within => .note event event' (onward.mono within)
  | _, _, _, _, .claim paired onward, within => .claim (within paired) (onward.mono within)
  | _, _, _, _, .number size onward, within =>
    .number size fun _ _ _ more numbered => onward (fun _ _ paired => more (within paired)) numbered
  | _, _, _, _, .wait paces onward, within => .wait paces (onward.mono within)
  | _, _, _, _, .join alike onward, within =>
    .join (alike.mono within) fun texts => (onward texts).mono within
  | _, _, _, _, .attempt alike onward, within =>
    .attempt (alike.mono within) fun result => (onward result).mono within

theorem AlikeAll.mono : ∀ {ρ ρ' : Pairing} {parts parts' : List Rendering},
    AlikeAll shift ρ parts parts' → ρ.Within ρ' → AlikeAll shift ρ' parts parts'
  | _, _, _, _, .nil _, _ => .nil _
  | _, _, _, _, .cons first others, within => .cons (first.mono within) (others.mono within)

end

/-! ### Endings -/

/-- Renderings that are alike are over together, in the same way. -/
theorem Alike.endsLike {ρ : Pairing} {r r' : Rendering} (alike : Alike shift ρ r r') :
    r.EndsLike r' := by
  cases alike with
  | done | failed | panicked => exact .inr ⟨rfl, rfl⟩
  | _ => exact .inl ⟨rfl, rfl⟩

theorem AlikeAll.endsLike {ρ : Pairing} : ∀ {parts parts' : List Rendering},
    AlikeAll shift ρ parts parts' → List.Forall₂ EndsLike parts parts'
  | _, _, .nil _ => .nil
  | _, _, .cons first others => .cons first.endsLike others.endsLike

/-! ### Asking -/

/-- What comes of two renderings, or of siblings, that are asked: the contents that correspond have
    grown, and what is left corresponds again. -/
def Correspond {α : Type} (shift : Nat) (R : Pairing → α → α → Prop) (ρ : Pairing) (w : EventLoop)
    (left left' : α × EventLoop) : Prop :=
  ∃ ρ', ρ.Grows ρ' w left.2 ∧ ρ'.Synced shift left.2 left'.2 ∧ R ρ' left.1 left'.1

/-- Going on after the first has changed the state. -/
theorem Correspond.after {α : Type} {R : Pairing → α → α → Prop} {ρ ρ' : Pairing} {w w' : EventLoop}
    {left left' : α × EventLoop} (first : ρ.Grows ρ' w w')
    (rest : Correspond shift R ρ' w' left left') : Correspond shift R ρ w left left' := by
  obtain ⟨ρ'', grows, synced, alike⟩ := rest
  exact ⟨ρ'', first.trans grows, synced, alike⟩

mutual

/-- Renderings that are alike remain so when both are asked at corresponding instants. -/
theorem Alike.poll : ∀ {ρ : Pairing} {r r' : Rendering}, Alike shift ρ r r' → ∀ {w v : EventLoop},
    ρ.Synced shift w v → Correspond shift (Alike shift) ρ w (r.poll w) (r'.poll v)
  | ρ, _, _, .done _ markup, w, _, synced => ⟨ρ, .refl ρ w, synced, .done ρ markup⟩
  | ρ, _, _, .failed _ error, w, _, synced => ⟨ρ, .refl ρ w, synced, .failed ρ error⟩
  | ρ, _, _, .panicked _ message, w, _, synced => ⟨ρ, .refl ρ w, synced, .panicked ρ message⟩
  | ρ, _, _, .note event event' onward, w, v, synced =>
    have noted : ρ.Synced shift (w.note event) (v.note event') := synced.timeline rfl rfl
    have grown : ρ.Grows ρ w (w.note event) := .timeline ρ w rfl
    .after grown (onward.poll noted)
  | ρ, .claim cell _, .claim _ _, .claim paired onward, w, v, synced => by
    have same := synced.used paired
    rw [Rendering.poll, Rendering.poll]
    by_cases isUsed : cell ∈ w.used
    · rw [if_pos isUsed, if_pos (same.1 isUsed)]
      exact ⟨ρ, .refl ρ w, synced, .failed ρ .consumed⟩
    · rw [if_neg isUsed, if_neg (mt same.2 isUsed)]
      exact .after (.claim paired w) (onward.poll (synced.claim paired))
  | ρ, _, _, .number size onward, w, v, synced => by
    have numbered : ∀ k < size, ρ.extend w.cells v.cells size (w.cells + k) (v.cells + k) :=
      fun k less => .inr ⟨k, less, rfl, rfl⟩
    have alike := onward (fun _ _ => .inl) numbered
    exact .after (.number ρ w v.cells size) (alike.poll (synced.number size))
  | ρ, .wait pace _, .wait pace' _, .wait paces onward, w, v, synced => by
    have polled := paces.poll synced.now
    have still := pace.poll_now w.timeline
    have still' := pace'.poll_now v.timeline
    rw [poll_wait, poll_wait]
    generalize (pace.poll w.timeline).1 = left, (pace'.poll v.timeline).1 = left' at polled
    cases polled with
    | none => exact .after (.timeline ρ w still) (onward.poll (synced.timeline still still'))
    | some left => exact ⟨ρ, .timeline ρ w still, synced.timeline still still', .wait left onward⟩
  | ρ, .join parts _, .join parts' _, .join alike onward, w, v, synced => by
    obtain ⟨ρ', grows, synced, kept⟩ := alike.pollAll (isPrompt parts.length) true synced
    -- What is left of the groups stands the same way.
    rw [poll_join, poll_join, ← alike.endsLike.length_eq, ← verdict_of_endsLike kept.endsLike]
    cases verdict (Rendering.pollAll (isPrompt parts.length) true parts w).1 with
    | complete texts => exact .after grows (((onward texts).mono grows.within).poll synced)
    | failed error => exact ⟨ρ', grows, synced, .failed ρ' error⟩
    | panicked message => exact ⟨ρ', grows, synced, .panicked ρ' message⟩
    | waiting =>
      exact ⟨ρ', grows, synced, .join kept fun texts => (onward texts).mono grows.within⟩
  | ρ, .attempt body _, .attempt body' _, .attempt alike onward, w, v, synced => by
    obtain ⟨ρ', grows, synced, kept⟩ := alike.poll synced
    have onward := fun result => (onward result).mono grows.within
    obtain ⟨waits, waits'⟩ | ⟨ended, same⟩ := kept.endsLike
    · rw [poll_attempt_of_waits waits, poll_attempt_of_waits waits']
      exact ⟨ρ', grows, synced, .attempt kept onward⟩
    · rw [poll_attempt, poll_attempt, ← same]
      generalize (body.poll w).1 = left at ended
      cases left with
      | done markup => exact .after grows ((onward (.ok markup)).poll synced)
      | failed error => exact .after grows ((onward (.error error)).poll synced)
      | panicked message => exact ⟨ρ', grows, synced, .panicked ρ' message⟩
      | _ => cases ended

/-- Siblings that are alike remain so when both groups are asked. -/
theorem AlikeAll.pollAll : ∀ {ρ : Pairing} {parts parts' : List Rendering},
    AlikeAll shift ρ parts parts' → ∀ (prompt settled : Bool) {w v : EventLoop},
      ρ.Synced shift w v →
        Correspond shift (AlikeAll shift) ρ w (pollAll prompt settled parts w)
          (pollAll prompt settled parts' v)
  | ρ, _, _, .nil _, _, _, w, _, synced => ⟨ρ, .refl ρ w, synced, .nil ρ⟩
  | ρ, part :: rest, part' :: rest', .cons first others,
      prompt, settled, w, v, synced => by
    obtain ⟨ρ', grows, synced, kept⟩ := first.poll synced
    have others := others.mono grows.within
    rw [pollAll_cons, pollAll_cons, ← kept.endsLike.endsGroup_eq, ← kept.endsLike.isDone_eq]
    cases (part.poll w).1.endsGroup prompt settled with
    | true => exact ⟨ρ', grows, synced, .cons kept others⟩
    | false =>
      obtain ⟨ρ'', grows', synced, others⟩ :=
        others.pollAll prompt (settled && (part.poll w).1.isDone) synced
      exact ⟨ρ'', grows.trans grows', synced, .cons (kept.mono grows'.within) others⟩

end

mutual

/-- Renderings that are alike wait for sleeps that end at corresponding instants. -/
theorem Alike.alarms : ∀ {ρ : Pairing} {r r' : Rendering}, Alike shift ρ r r' →
    List.Forall₂ (fun alarm alarm' => alarm.deadline = alarm'.deadline + shift) r.alarms r'.alarms
  | _, _, _, .done .. | _, _, _, .failed .. | _, _, _, .panicked .. | _, _, _, .note ..
  | _, _, _, .claim .. | _, _, _, .number .. => .nil
  | _, .wait pace _, .wait pace' _, .wait paces _ => by
    have alarm := paces.alarm
    rw [Rendering.alarms, Rendering.alarms]
    generalize pace.alarm? = first, pace'.alarm? = second at alarm
    cases alarm with
    | none => exact .nil
    | some same => exact .cons same .nil
  | _, _, _, .join alike _ => alike.alarms
  | _, _, _, .attempt alike _ => alike.alarms

theorem AlikeAll.alarms : ∀ {ρ : Pairing} {parts parts' : List Rendering},
    AlikeAll shift ρ parts parts' →
      List.Forall₂ (fun alarm alarm' => alarm.deadline = alarm'.deadline + shift)
        (alarmsOfAll parts) (alarmsOfAll parts')
  | _, _, _, .nil _ => .nil
  | _, _, _, .cons first others => List.rel_append first.alarms others.alarms

end

end Rendering

end ProgressiveHtml
