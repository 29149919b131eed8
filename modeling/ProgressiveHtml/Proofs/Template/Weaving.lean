import Mathlib.Data.List.TakeWhile
import ProgressiveHtml.Proofs.Template.Scanning

namespace ProgressiveHtml

/-!
# Templates — weaving segments and names together

A pattern is woven out of segments of text with the markers of names between them.  Taking a pattern
apart is the exact inverse, as long as names are names and no segment holds a marker itself.  Braces
at the ends of segments and openings that are never closed do no harm.

* `Template.weave` — segments and names in turn, each name in a marker;
* `Template.Plain`, `Template.WellFormed` — what can be woven without a loss;
* `Template.split_eq_iff` — the one way to take a text apart;
* `Template.compile_iff_weave` — the same of patterns.
-/

namespace Template

/-- Segments and names in turn, each name in a marker, beginning and ending with a segment. -/
def weave : List String → List String → String
  | segment :: segments, name :: names => segment ++ marker name ++ weave segments names
  | segment :: _, [] => segment
  | [], _ => ""

/-- No marker stands anywhere in a text. -/
def Plain (text : List Char) : Prop := ∀ name, IsName name → ¬marked name <:+: text

/-- Segments and names that can be told from each other once they are woven. -/
structure WellFormed (segments names : List String) : Prop where
  /-- There is a name between any two segments that follow each other. -/
  size : segments.length = names.length + 1
  names : ∀ name ∈ names, IsName name.toList
  plain : ∀ segment ∈ segments, Plain segment.toList

/-! ### Markers -/

variable {name behind cs opening : List Char} {sections : List (List Char × List Char)}

@[simp] theorem marker_toList (name : String) : (marker name).toList = marked name.toList := by
  simp [marker, marked]

/-- A marker that begins in a text is wholly in it, also when another one follows: its name has no
    brace in it. -/
theorem marked_prefix_of_append {c : Char} {rest follow : List Char} (isName : IsName name)
    (begins : c :: cs ++ ('{' :: '{' :: follow) = marked name ++ rest) : marked name <+: c :: cs := by
  obtain ⟨proper, chars⟩ := isName
  obtain ⟨beyond, inside, goesOn⟩ | ⟨left, whole, -⟩ := List.append_eq_append_iff.1 begins
  case inr => exact ⟨left, whole.symm⟩
  -- What the marker has beyond the text begins with the brace that follows.
  cases beyond with
  | nil => exact ⟨[], by simpa using inside⟩
  | cons d beyond =>
    obtain ⟨rfl, onward⟩ := List.cons.inj goesOn
    exfalso
    cases cs with
    | nil =>
      -- The second brace of the marker would be the first of the next, so its name would begin
      -- with a brace.
      obtain ⟨n, name, rfl⟩ := List.exists_cons_of_ne_nil proper
      obtain rfl := (List.cons.inj (List.cons.inj inside).2).2
      obtain ⟨rfl, -⟩ := List.cons.inj onward
      exact absurd (chars _ List.mem_cons_self) (by decide)
    | cons d cs =>
      have brace : '{' ∈ name ++ ['}', '}'] := (List.cons.inj (List.cons.inj inside).2).2 ▸ by simp
      rw [List.mem_append] at brace
      obtain inName | closing := brace
      · exact absurd (chars _ inName) (by decide)
      · simp at closing

/-! ### Taking apart -/

/-- Names in markers, each with the text behind it. -/
def written (sections : List (List Char × List Char)) : List Char :=
  sections.flatMap fun (name, text) => marked name ++ text

@[simp] theorem written_nil : written [] = [] := rfl

@[simp] theorem written_cons (name text : List Char) :
    written ((name, text) :: sections) = marked name ++ text ++ written sections := rfl

/-- What a text is taken apart to can be written out again. -/
theorem split_written (cs : List Char) : (split cs).1 ++ written (split cs).2 = cs := by
  induction cs using split.induct with
  | case1 cs name behind found _ _ _ ih =>
    obtain ⟨-, rfl⟩ := marker?_eq_some_iff.1 found
    rw [split_of_marker found, List.nil_append, written_cons, List.append_assoc, ih]
  | case2 => rw [split_nil]; rfl
  | case3 c rest none _ _ _ ih => rw [split_cons_of_none none, List.cons_append, ih]

/-- A text is taken apart to names and to texts in which no marker is left. -/
theorem split_plain (cs : List Char) : Plain (split cs).1 ∧
    ∀ part ∈ (split cs).2, IsName part.1 ∧ Plain part.2 := by
  induction cs using split.induct with
  | case1 cs name behind found _ _ _ ih =>
    obtain ⟨isName, -⟩ := marker?_eq_some_iff.1 found
    rw [split_of_marker found]
    refine ⟨fun _ _ => by simp [marked], ?_⟩
    rintro part (_ | ⟨_, later⟩)
    · exact ⟨isName, ih.1⟩
    · exact ih.2 part later
  | case2 =>
    rw [split_nil]
    exact ⟨fun _ _ => by simp [marked], by simp⟩
  | case3 c rest none _ _ _ ih =>
    rw [split_cons_of_none none]
    refine ⟨fun name isName inside => ?_, ih.2⟩
    obtain front | inside := List.infix_cons_iff.1 inside
    · -- A marker at the front of the opening would have been found.
      obtain ⟨left, whole⟩ := front
      have found : marker? (c :: rest) = some (name, left ++ written (split rest).2) :=
        marker?_eq_some_iff.2 ⟨isName, by
          rw [← List.append_assoc, whole, List.cons_append, split_written]⟩
      rw [none] at found
      cases found
    · exact ih.1 name isName inside

/-- Texts without markers that are written out with names between them are taken apart to the same
    texts and names. -/
theorem split_of_plain (plain : Plain opening) (parts : ∀ part ∈ sections, IsName part.1 ∧ Plain part.2) :
    split (opening ++ written sections) = (opening, sections) := by
  induction sections generalizing opening with
  | nil =>
    rw [written_nil, List.append_nil]
    induction opening with
    | nil => exact split_nil
    | cons c rest ih =>
      -- No marker is read inside a plain text.
      have none : marker? (c :: rest) = none := by
        rw [Option.eq_none_iff_forall_ne_some]
        rintro ⟨name, behind⟩ found
        obtain ⟨isName, whole⟩ := marker?_eq_some_iff.1 found
        exact plain name isName (whole ▸ (List.prefix_append _ _).isInfix)
      rw [split_cons_of_none none,
        ih fun name isName inside => plain name isName (inside.trans (List.infix_cons (List.infix_refl _)))]
  | cons part sections later =>
    obtain ⟨name, text⟩ := part
    obtain ⟨⟨isName, plainText⟩, parts⟩ := List.forall_mem_cons.1 parts
    induction opening with
    | nil =>
      have found : marker? ([] ++ written ((name, text) :: sections)) =
          some (name, text ++ written sections) :=
        marker?_eq_some_iff.2 ⟨isName, by simp⟩
      rw [split_of_marker found, later plainText parts]
    | cons c rest ih =>
      -- A marker cannot begin inside the text and end behind it, because a name has no braces.
      have none : marker? (c :: rest ++ written ((name, text) :: sections)) = none := by
        rw [Option.eq_none_iff_forall_ne_some]
        rintro ⟨name', behind⟩ found
        obtain ⟨isName', whole⟩ := marker?_eq_some_iff.1 found
        exact plain name' isName' (marked_prefix_of_append isName' whole).isInfix
      rw [List.cons_append] at none ⊢
      rw [split_cons_of_none none,
        ih fun name isName inside => plain name isName (inside.trans (List.infix_cons (List.infix_refl _)))]

/-- There is one way to take a text apart so that names stand in the markers and no marker is left. -/
theorem split_eq_iff : split cs = (opening, sections) ↔
    opening ++ written sections = cs ∧ Plain opening ∧
      ∀ part ∈ sections, IsName part.1 ∧ Plain part.2 := by
  constructor
  · intro same
    have whole := split_written cs
    have plain := split_plain cs
    rw [same] at whole plain
    exact ⟨whole, plain⟩
  · rintro ⟨rfl, plain, parts⟩
    exact split_of_plain plain parts

/-! ### Patterns -/

/-- A segment with the name in front of it, as characters. -/
def chars (part : String × String) : List Char × List Char := (part.1.toList, part.2.toList)

theorem weave_toList (opening : String) {names texts : List String}
    (size : texts.length = names.length) : (weave (opening :: texts) names).toList =
      opening.toList ++ written ((names.zip texts).map chars) := by
  induction names generalizing opening texts with
  | nil =>
    obtain rfl := List.eq_nil_of_length_eq_zero size
    simp [weave]
  | cons name names ih =>
    obtain ⟨text, texts, rfl⟩ := List.exists_cons_of_length_eq_add_one size
    simp [weave, chars, ih text (Nat.succ.inj size)]

/-- What a pattern is taken apart to, as characters. -/
theorem compile_of_split {pattern : String} (apart : split pattern.toList = (opening, sections)) :
    (compile pattern).segments = String.ofList opening :: sections.map (String.ofList ·.2) ∧
      (compile pattern).slots = sections.map (String.ofList ·.1) := by
  simp [compile, scan_eq_split, apart, segments, slots, Function.comp_def]

/-- Whatever a pattern is taken apart to is well formed, and the pattern is woven out of it. -/
theorem compile_wellFormed (pattern : String) :
    WellFormed (compile pattern).segments (compile pattern).slots ∧
      weave (compile pattern).segments (compile pattern).slots = pattern := by
  rcases apart : split pattern.toList with ⟨opening, sections⟩
  obtain ⟨segments, names⟩ := compile_of_split apart
  obtain ⟨whole, plain, parts⟩ := split_eq_iff.1 apart
  rw [segments, names]
  refine ⟨⟨by simp, fun name isName => ?_, List.forall_mem_cons.2 ⟨by simpa using plain, ?_⟩⟩, ?_⟩
  · obtain ⟨part, isPart, rfl⟩ := List.mem_map.1 isName
    simpa using (parts part isPart).1
  · intro text isText
    obtain ⟨part, isPart, rfl⟩ := List.mem_map.1 isText
    simpa using (parts part isPart).2
  · apply String.toList_injective
    have same : ((sections.map (String.ofList ·.1)).zip (sections.map (String.ofList ·.2))).map chars =
        sections := by
      simp [List.zip_map', chars, Function.comp_def]
    rw [weave_toList _ (by simp), same, String.toList_ofList, whole]

/-- What is well formed is got back from the pattern woven out of it. -/
theorem compile_weave {segments names : List String} (wellFormed : WellFormed segments names) :
    (compile (weave segments names)).segments = segments ∧
      (compile (weave segments names)).slots = names := by
  obtain ⟨size, areNames, arePlain⟩ := wellFormed
  obtain ⟨opening, texts, rfl⟩ := List.exists_cons_of_length_eq_add_one size
  have size : texts.length = names.length := Nat.succ.inj size
  obtain ⟨plain, arePlain⟩ := List.forall_mem_cons.1 arePlain
  have apart : split (weave (opening :: texts) names).toList =
      (opening.toList, (names.zip texts).map chars) := by
    refine split_eq_iff.2 ⟨(weave_toList opening size).symm, plain, fun part isPart => ?_⟩
    obtain ⟨⟨name, text⟩, inZip, rfl⟩ := List.mem_map.1 isPart
    obtain ⟨isName, isText⟩ := List.of_mem_zip inZip
    exact ⟨areNames name isName, arePlain text isText⟩
  obtain ⟨segments, slots⟩ := compile_of_split apart
  rw [segments, slots]
  simp [chars, Function.comp_def, List.map_fst_zip size.ge, List.map_snd_zip size.le]

/-- A pattern is taken apart to segments and names exactly if these can be told from each other and the
    pattern is woven out of them.  So whatever a pattern is taken apart to is well formed and gives the
    pattern back, and whatever is well formed is got back from its pattern. -/
theorem compile_iff_weave (pattern : String) (segments names : List String) :
    (compile pattern).segments = segments ∧ (compile pattern).slots = names ↔
      WellFormed segments names ∧ weave segments names = pattern := by
  constructor
  · rintro ⟨rfl, rfl⟩
    exact compile_wellFormed pattern
  · rintro ⟨wellFormed, rfl⟩
    exact compile_weave wellFormed

end Template

end ProgressiveHtml
