namespace ProgressiveHtml

/-!
# Templates — patterns with named slots

A pattern is text with markers such as `{{name}}`.  A name is one or more ASCII letters, digits,
`_` or `-`.  Everything else, also a pair of braces around anything else, is literal text.  A
template is a pattern taken apart at its markers.

* `Template.scan`, `Template.compile` — take a text and a pattern apart;
* `Template.segments`, `Template.slots` — the text around the markers and the names in them;
* `Template.pattern` — the pattern of a template.
-/

/-- A pattern taken apart: the text in front of the first marker, then each marker's name with the
    text behind it. -/
structure Template where
  opening : String
  sections : List (String × String)
  deriving DecidableEq

namespace Template

/-- Whether a character may stand in the name of a slot. -/
def isNameChar (c : Char) : Bool :=
  c.isAlphanum || c == '_' || c == '-'

/-- Whether characters are the name of a slot. -/
def isName (name : List Char) : Bool :=
  !name.isEmpty && name.all isNameChar

/-- What stands in front of the first pair of a character, and what comes behind the pair. -/
def findPair (c : Char) : List Char → Option (List Char × List Char)
  | a :: b :: rest =>
    if a = c ∧ b = c then some ([], rest)
    else (findPair c (b :: rest)).map fun (front, behind) => (a :: front, behind)
  | _ => none

/-- A text consists of what stands in front of the pair, the pair, and what comes behind it. -/
theorem findPair_eq {c : Char} {cs front behind : List Char}
    (found : findPair c cs = some (front, behind)) : cs = front ++ c :: c :: behind := by
  induction cs generalizing front with
  | nil => cases found
  | cons a rest ih =>
    cases rest with
    | nil => cases found
    | cons b rest =>
      rw [findPair] at found
      split at found
      · rename_i pair
        obtain ⟨rfl, rfl⟩ := pair
        cases found
        rfl
      · obtain ⟨⟨front, behind⟩, further, same⟩ := Option.map_eq_some_iff.1 found
        cases same
        rw [ih further]
        rfl

/-- Take a text apart at its markers, when the given text has been passed since the last one.  A marker
    is looked for from the next pair of braces that opens to the next pair that closes, however far
    away.  If there is no name between them, one of the braces is passed, so that a marker may still
    begin with the other. -/
def scan (literal rest : List Char) : List Char × List (List Char × List Char) :=
  match _opens : findPair '{' rest with
  | none => (literal ++ rest, [])
  | some (front, opened) =>
    match _closes : findPair '}' opened with
    | none => (literal ++ rest, [])
    | some (name, behind) =>
      if isName name then
        let (text, sections) := scan [] behind
        (literal ++ front, (name, text) :: sections)
      else scan (literal ++ front ++ ['{']) ('{' :: opened)
termination_by rest.length
decreasing_by
  · have whole := findPair_eq _opens
    have inner := findPair_eq _closes
    simp only [whole, inner, List.length_append, List.length_cons]
    omega
  · have whole := findPair_eq _opens
    simp only [whole, List.length_append, List.length_cons]
    omega

/-- Take a pattern apart at its markers. -/
def compile (pattern : String) : Template :=
  let (opening, sections) := scan [] pattern.toList
  { opening := String.ofList opening
    sections := sections.map fun (name, text) => (String.ofList name, String.ofList text) }

/-- The literal text around the slots, one piece more than there are slots. -/
def segments (t : Template) : List String :=
  t.opening :: t.sections.map (·.2)

/-- The names of the slots, in order; a name may occur several times. -/
def slots (t : Template) : List String :=
  t.sections.map (·.1)

/-- The marker of a slot. -/
def marker (name : String) : String :=
  "\x7b\x7b" ++ name ++ "\x7d\x7d"

/-- The pattern of a template. -/
def pattern (t : Template) : String :=
  t.opening ++ String.join (t.sections.map fun (name, text) => marker name ++ text)

end Template

end ProgressiveHtml
