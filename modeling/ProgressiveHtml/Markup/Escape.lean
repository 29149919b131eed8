namespace ProgressiveHtml.Markup

/-!
# Markup — escaping text

Five characters carry meaning in markup: `&`, `<`, `>`, `"` and `'`.  `escape` writes each of
them as an entity and leaves every other character alone, so that text can stand between tags
and inside a quoted attribute value.

* `entity?` — the entity of one character, if it needs one;
* `escapeChars` / `escape` — the escaped text;
* `escapeChars_append` — escaping works character by character.
-/

/-- The entity that stands for a character in markup, for the five characters that need one. -/
def entity? : Char → Option (List Char)
  | '&' => some ['&', 'a', 'm', 'p', ';']
  | '<' => some ['&', 'l', 't', ';']
  | '>' => some ['&', 'g', 't', ';']
  | '"' => some ['&', 'q', 'u', 'o', 't', ';']
  | '\'' => some ['&', '#', '3', '9', ';']
  | _ => none

/-- One character as it is written in markup. -/
def escapeChar (c : Char) : List Char :=
  (entity? c).getD [c]

/-- Escaping on lists of characters. -/
def escapeChars (cs : List Char) : List Char :=
  cs.flatMap escapeChar

/-- Escape text for use between tags or in a quoted attribute value. -/
def escape (s : String) : String :=
  String.ofList (escapeChars s.toList)

@[simp] theorem escapeChars_nil : escapeChars [] = [] := rfl

@[simp] theorem escapeChars_cons (c : Char) (cs : List Char) :
    escapeChars (c :: cs) = escapeChar c ++ escapeChars cs := rfl

/-- Escaping works character by character, so it distributes over concatenation. -/
theorem escapeChars_append (a b : List Char) :
    escapeChars (a ++ b) = escapeChars a ++ escapeChars b := by
  simp [escapeChars]

@[simp] theorem escape_toList (s : String) : (escape s).toList = escapeChars s.toList := by
  simp [escape]

end ProgressiveHtml.Markup
