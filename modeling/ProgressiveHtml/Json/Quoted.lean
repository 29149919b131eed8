import ProgressiveHtml.Json.Basic

namespace ProgressiveHtml.Json

/-!
# JSON — quoted strings

A string stands between quotes.  Quotes, backslashes and control characters in it are written as
escapes, everything else as it is.  Reading accepts every escape of JSON, pairs of surrogates
included.

* `quote` — write a string;
* `readQuoted` — read a string behind its opening quote.
-/

/-- The letter that stands behind the backslash in the short escape of a character. -/
def shortEscape? : Char → Option Char
  | '"' => some '"'
  | '\\' => some '\\'
  | '\x08' => some 'b'
  | '\x0c' => some 'f'
  | '\n' => some 'n'
  | '\r' => some 'r'
  | '\t' => some 't'
  | _ => none

/-- A digit of base sixteen. -/
def hexDigit (n : Nat) : Char :=
  if n < 10 then Char.ofNat ('0'.toNat + n) else Char.ofNat ('a'.toNat + (n - 10))

/-- One character as it is written inside quotes. -/
def quoteChar (c : Char) : List Char :=
  match shortEscape? c with
  | some letter => ['\\', letter]
  | none =>
    if c.toNat < 0x20 then
      ['\\', 'u', '0', '0', hexDigit (c.toNat / 16), hexDigit (c.toNat % 16)]
    else [c]

/-- A string in quotes. -/
def quote (cs : List Char) : List Char :=
  '"' :: (cs.flatMap quoteChar ++ ['"'])

/-- The character that a short escape stands for. -/
def unescape? : Char → Option Char
  | '"' => some '"'
  | '\\' => some '\\'
  | '/' => some '/'
  | 'b' => some '\x08'
  | 'f' => some '\x0c'
  | 'n' => some '\n'
  | 'r' => some '\r'
  | 't' => some '\t'
  | _ => none

/-- The value of a digit of base sixteen. -/
def hexValue? (c : Char) : Option Nat :=
  if c.isDigit then some (c.toNat - '0'.toNat)
  else if 'a' ≤ c ∧ c ≤ 'f' then some (c.toNat - 'a'.toNat + 10)
  else if 'A' ≤ c ∧ c ≤ 'F' then some (c.toNat - 'A'.toNat + 10)
  else none

/-- The value of four digits of base sixteen. -/
def hexValue4? (a b c d : Char) : Option Nat := do
  return ((← hexValue? a) * 16 + (← hexValue? b)) * 256 + (← hexValue? c) * 16 + (← hexValue? d)

/-- What is wrong where four digits of base sixteen should stand: four bytes are looked at, so it
    depends on the length in bytes of what is left. -/
def hexFault (rest : List Char) : Fault :=
  if (String.ofList rest).utf8ByteSize < 4 then .endsEarly else .malformed

/-- Whether a number is the first of a pair of surrogates. -/
def isLeading (n : Nat) : Bool := 0xD800 ≤ n && n ≤ 0xDBFF

/-- Whether a number is the second of a pair of surrogates. -/
def isTrailing (n : Nat) : Bool := 0xDC00 ≤ n && n ≤ 0xDFFF

/-- The character that a pair of surrogates stands for. -/
def joinSurrogates (leading trailing : Nat) : Char :=
  Char.ofNat ((leading - 0xD800) * 0x400 + (trailing - 0xDC00) + 0x10000)

/-- Put a character in front of what is read after it. -/
def prependChar (c : Char) (r : Reader (List Char)) : Reader (List Char) :=
  r.map fun (text, rest) => (c :: text, rest)

/-- Read a string up to its closing quote.  With `strict`, surrogates must come in pairs; otherwise
    their escapes are only passed over. -/
def readQuoted (strict : Bool) : List Char → Reader (List Char)
  | [] => .error .endsEarly
  | '"' :: rest => .ok ([], rest)
  | '\\' :: 'u' :: a :: b :: c :: d :: rest =>
    match hexValue4? a b c d with
    | none => .error (hexFault (a :: b :: c :: d :: rest))
    | some n =>
      if strict && isTrailing n then .error .malformed
      else if strict && isLeading n then
        match rest with
        | '\\' :: 'u' :: e :: f :: g :: h :: behind =>
          match hexValue4? e f g h with
          | none => .error (hexFault (e :: f :: g :: h :: behind))
          | some m =>
            if isTrailing m then prependChar (joinSurrogates n m) (readQuoted strict behind)
            else .error .malformed
        | [] => .error .endsEarly
        | ['\\'] => .error .endsEarly
        | '\\' :: 'u' :: short => .error (hexFault short)
        | _ => .error .malformed
      else prependChar (Char.ofNat n) (readQuoted strict rest)
  | '\\' :: 'u' :: short => .error (hexFault short)
  | ['\\'] => .error .endsEarly
  | '\\' :: letter :: rest =>
    match unescape? letter with
    | some c => prependChar c (readQuoted strict rest)
    | none => .error .malformed
  | c :: rest =>
    if c.toNat < 0x20 then .error .malformed else prependChar c (readQuoted strict rest)

end ProgressiveHtml.Json
