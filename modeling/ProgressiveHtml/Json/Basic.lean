namespace ProgressiveHtml.Json

/-!
# JSON — reading from the left

JSON text is read from the left over a list of characters.  A reader gives what it found and the
rest of the text, or tells what is wrong at the first place where something is.

* `Fault` — what can be wrong with a text;
* `Reader` — the outcome of reading;
* `skipBlanks`, `expect` — white space, and the words `null`, `true` and `false`.
-/

/-- What is wrong with a text. -/
inductive Fault where
  /-- Well-formed, but not what belongs there. -/
  | wrongData
  /-- Not JSON. -/
  | malformed
  /-- It ends too early. -/
  | endsEarly
  deriving DecidableEq

namespace Fault

/-- The name of the fault. -/
def name : Fault → String
  | wrongData => "Data"
  | malformed => "Syntax"
  | endsEarly => "Eof"

end Fault

/-- What was read and the rest of the text, or what is wrong. -/
abbrev Reader (α : Type) := Except Fault (α × List Char)

/-- The characters that may stand between the tokens of a text. -/
def isBlank (c : Char) : Bool :=
  c == ' ' || c == '\n' || c == '\t' || c == '\r'

/-- The text from its first character that is not white space. -/
def skipBlanks (cs : List Char) : List Char :=
  cs.dropWhile isBlank

/-- Read the given characters. -/
def expect : List Char → List Char → Except Fault (List Char)
  | [], rest => .ok rest
  | _ :: _, [] => .error .endsEarly
  | c :: word, d :: rest => if c = d then expect word rest else .error .malformed

/-- The word that a character begins, without this character: `null`, `true` or `false`. -/
def word? : Char → Option (List Char)
  | 'n' => some ['u', 'l', 'l']
  | 't' => some ['r', 'u', 'e']
  | 'f' => some ['a', 'l', 's', 'e']
  | _ => none

end ProgressiveHtml.Json
