import ProgressiveHtml.Json.Number
import ProgressiveHtml.Json.Quoted

namespace ProgressiveHtml.Json

/-!
# JSON — passing over a value

Fields that nobody asks for are passed over, whatever their value.  Strings are looked at only for
their end, numbers only for their form.

* `skipValue` — pass over one value;
* `wrongValue` — what is wrong where a value of another type should stand.
-/

mutual

/-- Pass over one value; the first argument bounds the number of steps. -/
def skipValueIn : Nat → List Char → Except Fault (List Char)
  | 0, _ => .error .malformed
  | steps + 1, cs =>
    match skipBlanks cs with
    | [] => .error .endsEarly
    | '"' :: rest => (readQuoted false rest).map (·.2)
    | '-' :: rest => skipNumber rest
    | '[' :: rest =>
      match skipBlanks rest with
      | [] => .error .endsEarly
      | ']' :: rest => .ok rest
      | rest => skipElements steps rest
    | '{' :: rest =>
      match skipBlanks rest with
      | [] => .error .endsEarly
      | '}' :: rest => .ok rest
      | rest => skipMembers steps rest
    | c :: rest =>
      if c.isDigit then skipNumber (c :: rest)
      else
        match word? c with
        | some word => expect word rest
        | none => .error .malformed

/-- Pass over the elements of an array and its closing bracket. -/
def skipElements : Nat → List Char → Except Fault (List Char)
  | 0, _ => .error .malformed
  | steps + 1, cs =>
    match skipValueIn steps cs with
    | .error fault => .error fault
    | .ok rest =>
      match skipBlanks rest with
      | [] => .error .endsEarly
      | ']' :: rest => .ok rest
      | ',' :: rest => skipElements steps rest
      | _ => .error .malformed

/-- Pass over the members of an object and its closing brace. -/
def skipMembers : Nat → List Char → Except Fault (List Char)
  | 0, _ => .error .malformed
  | steps + 1, cs =>
    match skipBlanks cs with
    | [] => .error .endsEarly
    | '"' :: rest =>
      match readQuoted false rest with
      | .error fault => .error fault
      | .ok (_, rest) =>
        match skipBlanks rest with
        | [] => .error .endsEarly
        | ':' :: rest =>
          match skipValueIn steps rest with
          | .error fault => .error fault
          | .ok rest =>
            match skipBlanks rest with
            | [] => .error .endsEarly
            | '}' :: rest => .ok rest
            | ',' :: rest => skipMembers steps rest
            | _ => .error .malformed
        | _ => .error .malformed
    | _ => .error .malformed

end

/-- Pass over one value.  Every step but those into an array passes over a character. -/
def skipValue (cs : List Char) : Except Fault (List Char) :=
  skipValueIn (2 * cs.length + 2) cs

/-- What is wrong where a value of another type should stand: the value itself may be ill-formed,
    and is otherwise of the wrong type.  The text begins with the value. -/
def wrongValue : List Char → Fault
  | [] => .malformed
  | '"' :: rest => faultOf (readQuoted true rest)
  | '-' :: rest => faultOf (readNumber true rest)
  | '[' :: _ => .wrongData
  | '{' :: _ => .wrongData
  | c :: rest =>
    if c.isDigit then faultOf (readNumber false (c :: rest))
    else
      match word? c with
      | some word => faultOf (expect word rest)
      | none => .malformed
where
  /-- The fault met while reading, or that the type is wrong. -/
  faultOf {α : Type} : Except Fault α → Fault
    | .error fault => fault
    | .ok _ => .wrongData

end ProgressiveHtml.Json
