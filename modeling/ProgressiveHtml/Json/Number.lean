import ProgressiveHtml.Json.Basic

namespace ProgressiveHtml.Json

/-!
# JSON — numbers

A number is read with 64 bits of precision: a natural number that fits stays exact, and any other
number is only known to be one.  A number beyond the range of double precision is malformed.

* `Numeral` — what is known of a number;
* `readNumber` — read a number behind its sign;
* `skipNumber` — pass over a number, whatever its size.
-/

/-- What is known of a number that was read. -/
inductive Numeral where
  /-- A natural number of 64 bits. -/
  | natural (n : UInt64)
  /-- Any other number: negative, broken, with an exponent, or too large. -/
  | other

/-- The value of a decimal digit. -/
def digitValue (c : Char) : Nat := c.toNat - '0'.toNat

/-- The largest significand that is kept. -/
def maxSignificand : Nat := UInt64.size - 1

/-- A significand of at most 64 bits and the number of digits that were left off its end. -/
structure Significand where
  value : Nat := 0
  left : Nat := 0

/-- Append a digit.  Once one digit has been left off, all later ones are. -/
def Significand.push (s : Significand) (c : Char) : Significand :=
  if s.left = 0 ∧ s.value * 10 + digitValue c ≤ maxSignificand then
    { s with value := s.value * 10 + digitValue c }
  else { s with left := s.left + 1 }

/-- The significand of decimal digits. -/
def Significand.ofDigits (digits : List Char) : Significand :=
  digits.foldl Significand.push {}

/-- Append the digits behind the decimal point: the significand, and how many digits it took. -/
def appendFraction (value : Nat) : List Char → Nat × Nat
  | [] => (value, 0)
  | c :: rest =>
    if value * 10 + digitValue c ≤ maxSignificand then
      let (value, taken) := appendFraction (value * 10 + digitValue c) rest
      (value, taken + 1)
    else (value, 0)

/-- The number of 53 significant bits nearest to `n`; a half goes to the even neighbour. -/
def nearestDouble (n : Nat) : Nat :=
  let unit := Nat.pow 2 (n.log2 + 1 - 53)
  let low := n % unit
  if 2 * low < unit || 2 * low == unit && n / unit % 2 == 0 then n - low else n - low + unit

/-- The least number that double precision takes for infinite: the middle between the largest finite
    number and the power of two above it. -/
def rangeLimit : Nat := Nat.pow 2 1024 - Nat.pow 2 970

/-- Whether `value * 10 ^ exponent` is beyond the range of double precision, when both factors are
    rounded before they are multiplied. -/
def isOutOfRange (value : Nat) (exponent : Int) : Bool :=
  value != 0 && 0 ≤ exponent
    && (308 < exponent
      || rangeLimit ≤ nearestDouble value * nearestDouble (Nat.pow 10 exponent.toNat))

/-- A number that is not natural, unless it is out of range. -/
def checkRange (value : Nat) (exponent : Int) (rest : List Char) : Reader Numeral :=
  if isOutOfRange value exponent then .error .malformed else .ok (.other, rest)

/-- Read what stands behind the letter of an exponent. -/
def readExponent (value : Nat) (exponent : Int) (cs : List Char) : Reader Numeral :=
  let (negative, cs) :=
    match cs with
    | '+' :: rest => (false, rest)
    | '-' :: rest => (true, rest)
    | _ => (false, cs)
  match cs.takeWhile Char.isDigit, cs with
  | [], [] => .error .endsEarly
  | [], _ :: _ => .error .malformed
  | digits, _ =>
    let shift : Int := digits.foldl (fun n c => n * 10 + digitValue c) 0
    checkRange value (if negative then exponent - shift else exponent + shift)
      (cs.dropWhile Char.isDigit)

/-- Whether a character begins an exponent. -/
def isExponentLetter (c : Char) : Bool := c == 'e' || c == 'E'

/-- Read what stands behind the decimal point. -/
def readFraction (s : Significand) (cs : List Char) : Reader Numeral :=
  match cs.takeWhile Char.isDigit, cs with
  | [], [] => .error .endsEarly
  | [], _ :: _ => .error .malformed
  | digits, _ =>
    let (value, taken) := appendFraction s.value digits
    match cs.dropWhile Char.isDigit with
    | c :: rest =>
      if isExponentLetter c then readExponent value (s.left - taken) rest
      else checkRange value (s.left - taken) (c :: rest)
    | [] => checkRange value (s.left - taken) []

/-- Read what stands behind the digits in front of the decimal point. -/
def readTail (negative : Bool) (s : Significand) (cs : List Char) : Reader Numeral :=
  let whole : Reader Numeral :=
    if s.left ≠ 0 then checkRange s.value s.left cs
    else if negative then .ok (.other, cs)
    else .ok (.natural (UInt64.ofNat s.value), cs)
  match cs with
  | '.' :: rest => readFraction s rest
  | c :: rest => if isExponentLetter c then readExponent s.value s.left rest else whole
  | [] => whole

/-- Read a number behind its sign. -/
def readNumber (negative : Bool) : List Char → Reader Numeral
  | [] => .error .endsEarly
  | '0' :: rest =>
    if (rest.head?.map Char.isDigit).getD false then .error .malformed
    else readTail negative {} rest
  | c :: rest =>
    if c.isDigit then
      readTail negative (.ofDigits ((c :: rest).takeWhile Char.isDigit))
        (rest.dropWhile Char.isDigit)
    else .error .malformed

/-- Pass over at least one digit. -/
def skipDigits (cs : List Char) : Except Fault (List Char) :=
  if (cs.head?.map Char.isDigit).getD false then .ok (cs.dropWhile Char.isDigit)
  else .error .malformed

/-- Pass over an exponent, if there is one. -/
def skipExponent (cs : List Char) : Except Fault (List Char) :=
  match cs with
  | c :: rest =>
    if isExponentLetter c then
      match rest with
      | '+' :: rest => skipDigits rest
      | '-' :: rest => skipDigits rest
      | _ => skipDigits rest
    else .ok cs
  | [] => .ok cs

/-- Pass over a number behind its sign. -/
def skipNumber (cs : List Char) : Except Fault (List Char) := do
  let cs ←
    match cs with
    | '0' :: rest =>
      if (rest.head?.map Char.isDigit).getD false then .error .malformed else .ok rest
    | _ => skipDigits cs
  match cs with
  | '.' :: rest => skipDigits rest >>= skipExponent
  | _ => skipExponent cs

end ProgressiveHtml.Json
