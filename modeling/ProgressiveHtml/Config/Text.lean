import ProgressiveHtml.Config
import ProgressiveHtml.Json.Skip

namespace ProgressiveHtml.Config

/-!
# Configuration as text

A configuration is written as a JSON object with the fields `timeout_ms` and `template`; the second
is left out when there is no pattern.  Reading takes the fields in any order, gives a missing field
its default, passes over unknown fields, and refuses a field that comes twice.  An array with the
values of the two fields in order is read too.

* `Config.toText` — write a configuration;
* `Config.ofText?` — read one, or tell what is wrong with the text.
-/

open Json

/-- The name of the field for the timeout. -/
def timeoutField : List Char := "timeout_ms".toList

/-- The name of the field for the pattern. -/
def templateField : List Char := "template".toList

/-- Write a configuration. -/
def toText (c : Config) : String :=
  let template :=
    match c.template with
    | some pattern => ',' :: quote templateField ++ ':' :: quote pattern.toList
    | none => []
  String.ofList <|
    '{' :: quote timeoutField ++ ':' :: (Nat.repr c.timeoutMillis.toNat).toList ++ template ++ ['}']

/-- Read a timeout. -/
def readTimeout (cs : List Char) : Reader UInt64 :=
  match skipBlanks cs with
  | [] => .error .endsEarly
  | '-' :: rest => (readNumber true rest).bind natural
  | c :: rest =>
    if c.isDigit then (readNumber false (c :: rest)).bind natural
    else .error (wrongValue (c :: rest))
where
  /-- A timeout is a natural number. -/
  natural : Numeral × List Char → Reader UInt64
    | (.natural n, rest) => .ok (n, rest)
    | (.other, _) => .error .wrongData

/-- Read a pattern or `null`. -/
def readTemplate (cs : List Char) : Reader (Option String) :=
  match skipBlanks cs with
  | [] => .error .endsEarly
  | '"' :: rest => (readQuoted true rest).map fun (text, rest) => (some (String.ofList text), rest)
  | 'n' :: rest => (expect ['u', 'l', 'l'] rest).map fun rest => (none, rest)
  | cs => .error (wrongValue cs)

/-- The fields read so far. -/
structure Fields where
  timeout : Option UInt64 := none
  template : Option (Option String) := none

/-- The configuration with the fields that were read. -/
def ofFields (fields : Fields) : Config :=
  { timeoutMillis := fields.timeout.getD ({} : Config).timeoutMillis
    template := fields.template.getD none }

/-- Pass over the colon behind a name. -/
def readColon (cs : List Char) : Except Fault (List Char) :=
  match skipBlanks cs with
  | [] => .error .endsEarly
  | ':' :: rest => .ok rest
  | _ => .error .malformed

/-- Read the value of a field whose name has been read. -/
def readField (fields : Fields) (name cs : List Char) :
    Except Fault (Fields × List Char) :=
  if name = timeoutField then
    if fields.timeout.isSome then .error .wrongData
    else do
      let (timeout, rest) ← readTimeout (← readColon cs)
      return ({ fields with timeout := some timeout }, rest)
  else if name = templateField then
    if fields.template.isSome then .error .wrongData
    else do
      let (template, rest) ← readTemplate (← readColon cs)
      return ({ fields with template := some template }, rest)
  else do
    let rest ← skipValue (← readColon cs)
    return (fields, rest)

/-- What stands behind the comma in front of a field, or at the front of the first field; `none` at
    the closing brace. -/
def nextField (isFirst : Bool) (cs : List Char) : Except Fault (Option (List Char) × List Char) :=
  match skipBlanks cs with
  | [] => .error .endsEarly
  | '}' :: rest => .ok (none, rest)
  | c :: rest =>
    if isFirst then name (c :: rest)
    else if c = ',' then name (skipBlanks rest)
    else .error .malformed
where
  /-- Read the name of a field. -/
  name : List Char → Except Fault (Option (List Char) × List Char)
    | [] => .error .endsEarly
    | '"' :: rest => (readQuoted true rest).map fun (text, rest) => (some text, rest)
    | _ => .error .malformed

/-- Read the fields of an object and its closing brace; the first argument bounds their number. -/
def readFields : Nat → (isFirst : Bool) → Fields → List Char → Except Fault (Fields × List Char)
  | 0, _, _, _ => .error .malformed
  | most + 1, isFirst, fields, cs => do
    match ← nextField isFirst cs with
    | (none, rest) => return (fields, rest)
    | (some name, rest) =>
      let (fields, rest) ← readField fields name rest
      readFields most false fields rest

/-- Read the closing bracket of an array. -/
def closeArray (cs : List Char) : Except Fault (List Char) :=
  match skipBlanks cs with
  | [] => .error .endsEarly
  | ']' :: rest => .ok rest
  | _ => .error .malformed

/-- Read the second value of an array, if there is one, and the closing bracket. -/
def readSecond (fields : Fields) (cs : List Char) : Except Fault (Fields × List Char) :=
  match skipBlanks cs with
  | [] => .error .endsEarly
  | ']' :: rest => .ok (fields, rest)
  | ',' :: rest =>
    match skipBlanks rest with
    | [] => .error .endsEarly
    | ']' :: _ => .error .malformed
    | rest => do
      let (template, rest) ← readTemplate rest
      return ({ fields with template := some template }, ← closeArray rest)
  | _ => .error .malformed

/-- Read the values of an array and its closing bracket. -/
def readArray (cs : List Char) : Except Fault (Fields × List Char) :=
  match skipBlanks cs with
  | [] => .error .endsEarly
  | ']' :: rest => .ok ({}, rest)
  | cs => do
    let (timeout, rest) ← readTimeout cs
    readSecond { timeout := some timeout } rest

/-- Read a configuration from the whole text. -/
def ofChars (cs : List Char) : Except Fault Config := do
  let (fields, rest) ←
    match skipBlanks cs with
    | [] => .error .endsEarly
    | '{' :: rest => readFields (rest.length + 1) true {} rest
    | '[' :: rest => readArray rest
    | cs => .error (wrongValue cs)
  if (skipBlanks rest).isEmpty then return ofFields fields else .error .malformed

/-- Read a configuration from a text. -/
def ofText? (text : String) : Except Fault Config :=
  ofChars text.toList

end ProgressiveHtml.Config
