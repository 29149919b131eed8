import ProgressiveHtml.Json.Skip
import ProgressiveHtml.Proofs.Json.Grammar

namespace ProgressiveHtml.Json

/-!
# JSON — reading what the grammar derives

The readers take just what the grammar derives, and leave what stands behind it.

* `skipBlanks_append` — white space is passed over;
* `readQuoted_of_spells`, `skipQuoted_of_quotable` — a string is read as the text that it spells, or
  passed over;
* `spells_quote` — a string that was written spells its text;
* `skipNumber_of_magnitude`, `skipValue_of_derives` — numbers and values of any depth are passed over.
-/

variable {b cs rest : List Char}

/-! ### White space -/

theorem skipBlanks_append {c : Char} (blanks : Blanks b) (begins : isBlank c = false) :
    skipBlanks (b ++ c :: rest) = c :: rest := by
  rw [skipBlanks, List.dropWhile_append_of_pos blanks, List.dropWhile_cons_of_neg (by simp [begins])]

theorem skipBlanks_cons {c : Char} (begins : isBlank c = false) :
    skipBlanks (c :: rest) = c :: rest :=
  skipBlanks_append (b := []) nofun begins

theorem skipBlanks_of_blanks (blanks : Blanks b) : skipBlanks b = [] := by
  rw [skipBlanks, ← List.append_nil b, List.dropWhile_append_of_pos blanks, List.dropWhile_nil]

/-! ### Strings -/

variable {strict : Bool} {text written : List Char}

theorem hexValue_of_mem {c : Char} {n : Nat} (digit : (c, n) ∈ hexDigits) : hexValue? c = some n := by
  have all : ∀ digit ∈ hexDigits, hexValue? digit.1 = some digit.2 := by decide
  exact all _ digit

theorem readQuoted_end : readQuoted strict ('"' :: rest) = .ok ([], rest) := rfl

theorem readQuoted_plain {c : Char} (printable : 0x20 ≤ c.toNat) (unquoted : c ≠ '"')
    (unescaped : c ≠ '\\') :
    readQuoted strict (c :: rest) = prependChar c (readQuoted strict rest) := by
  rw [readQuoted, if_neg (Nat.not_lt.2 printable)] <;> simp_all

theorem readQuoted_short {letter c : Char} (escape : (letter, c) ∈ shortEscapes) :
    readQuoted strict ('\\' :: letter :: rest) = prependChar c (readQuoted strict rest) := by
  simp only [shortEscapes, List.mem_cons, List.not_mem_nil, or_false, Prod.mk.injEq] at escape
  obtain ⟨rfl, rfl⟩ | ⟨rfl, rfl⟩ | ⟨rfl, rfl⟩ | ⟨rfl, rfl⟩ | ⟨rfl, rfl⟩ | ⟨rfl, rfl⟩ | ⟨rfl, rfl⟩ | ⟨rfl, rfl⟩ :=
    escape <;> rfl

theorem Hex4.value {n : Nat} {digits : List Char} (hex : Hex4 n digits) :
    ∃ a b c d, digits = [a, b, c, d] ∧ hexValue4? a b c d = some n := by
  cases hex with
  | mk first second third fourth =>
    refine ⟨_, _, _, _, rfl, ?_⟩
    simp only [hexValue4?, hexValue_of_mem first, hexValue_of_mem second, hexValue_of_mem third,
      hexValue_of_mem fourth, Option.pure_def, Option.bind_eq_bind, Option.bind_some]
    congr 1
    omega

/-- The number of a character, or of a single surrogate where nobody minds. -/
theorem readQuoted_unit {n : Nat} {digits : List Char} (hex : Hex4 n digits)
    (single : strict → isLeading n = false ∧ isTrailing n = false) :
    readQuoted strict ('\\' :: 'u' :: (digits ++ rest)) =
      prependChar (Char.ofNat n) (readQuoted strict rest) := by
  obtain ⟨a, b, c, d, rfl, value⟩ := hex.value
  simp only [List.cons_append, List.nil_append]
  rw [readQuoted, value]
  cases strict with
  | false => rfl
  | true => simp [single rfl]

theorem readQuoted_pair {leading trailing : Nat} {digits digits' : List Char}
    (leads : isLeading leading) (trails : isTrailing trailing) (hex : Hex4 leading digits)
    (hex' : Hex4 trailing digits') :
    readQuoted true ('\\' :: 'u' :: (digits ++ '\\' :: 'u' :: (digits' ++ rest))) =
      prependChar (joinSurrogates leading trailing) (readQuoted true rest) := by
  obtain ⟨a, b, c, d, rfl, value⟩ := hex.value
  obtain ⟨e, f, g, h, rfl, value'⟩ := hex'.value
  have single : isTrailing leading = false := by
    simp [isLeading, isTrailing] at leads ⊢
    omega
  simp only [List.cons_append, List.nil_append]
  rw [readQuoted, value]
  simp [single, leads, value', trails]

/-- A string is read as the text that it spells. -/
theorem readQuoted_of_spells (spells : Spells text written) :
    readQuoted true (written ++ '"' :: rest) = .ok (text, rest) := by
  induction spells with
  | nil => exact readQuoted_end
  | plain printable unquoted unescaped _ ih =>
    rw [List.cons_append, readQuoted_plain printable unquoted unescaped, ih]
    rfl
  | short escape _ ih =>
    rw [List.cons_append, List.cons_append, readQuoted_short escape, ih]
    rfl
  | @unit c digits _ _ hex _ ih =>
    -- A character is no half of a pair of surrogates, so a unit is read on its own.
    have single : isLeading c.toNat = false ∧ isTrailing c.toNat = false := by
      have valid : c.toNat < 0xD800 ∨ 0xDFFF < c.toNat ∧ c.toNat < 0x110000 := c.valid
      simp only [isLeading, isTrailing, Bool.and_eq_false_iff, decide_eq_false_iff_not]
      omega
    rw [List.cons_append, List.cons_append, List.append_assoc, readQuoted_unit hex fun _ => single, ih,
      Char.ofNat_toNat]
    rfl
  | @pair c leading trailing _ _ _ _ isLead isTrail value hex hex' _ ih =>
    have joined : joinSurrogates leading trailing = c := by
      have number : (leading - 0xD800) * 0x400 + (trailing - 0xDC00) + 0x10000 = c.toNat := by omega
      rw [joinSurrogates, number, Char.ofNat_toNat]
    simp only [List.cons_append, List.append_assoc]
    rw [readQuoted_pair (by simpa [isLeading] using isLead) (by simpa [isTrailing] using isTrail) hex hex',
      ih, joined]
    rfl

/-- What may stand inside quotes is passed over. -/
theorem skipQuoted_of_quotable (quotable : Quotable written) :
    ∃ text, readQuoted false (written ++ '"' :: rest) = .ok (text, rest) := by
  induction quotable with
  | nil => exact ⟨[], readQuoted_end⟩
  | @plain c _ printable unquoted unescaped _ ih =>
    obtain ⟨text, ih⟩ := ih
    refine ⟨c :: text, ?_⟩
    rw [List.cons_append, readQuoted_plain printable unquoted unescaped, ih]
    rfl
  | @short _ c _ escape _ ih =>
    obtain ⟨text, ih⟩ := ih
    refine ⟨c :: text, ?_⟩
    rw [List.cons_append, List.cons_append, readQuoted_short escape, ih]
    rfl
  | @unit n _ _ hex _ ih =>
    obtain ⟨text, ih⟩ := ih
    refine ⟨Char.ofNat n :: text, ?_⟩
    rw [List.cons_append, List.cons_append, List.append_assoc, readQuoted_unit hex (by simp), ih]
    rfl

theorem hexDigit_mem {n : Nat} (small : n < 16) : (hexDigit n, n) ∈ hexDigits := by
  revert n
  decide

theorem shortEscape_mem {letter c : Char} (escape : shortEscape? c = some letter) :
    (letter, c) ∈ shortEscapes := by
  unfold shortEscape? at escape
  split at escape <;> cases escape
  all_goals decide

/-- A character that was written spells itself. -/
theorem spells_quoteChar (c : Char) (more : Spells text written) :
    Spells (c :: text) (quoteChar c ++ written) := by
  unfold quoteChar
  split
  · rename_i escape
    exact .short (shortEscape_mem escape) more
  · rename_i noEscape
    split
    · rename_i control
      have hex := Hex4.mk (hexDigit_mem (n := 0) (by decide)) (hexDigit_mem (n := 0) (by decide))
        (hexDigit_mem (n := c.toNat / 16) (by omega)) (hexDigit_mem (n := c.toNat % 16) (by omega))
      rw [show ((0 * 16 + 0) * 16 + c.toNat / 16) * 16 + c.toNat % 16 = c.toNat by omega] at hex
      exact .unit hex more
    · rename_i printable
      refine .plain (Nat.le_of_not_lt printable) ?_ ?_ more <;> rintro rfl <;> cases noEscape

/-- A string that was written spells its text. -/
theorem spells_quote (text : List Char) : Spells text (text.flatMap quoteChar) := by
  induction text with
  | nil => exact .nil
  | cons c rest ih => exact spells_quoteChar c ih

/-! ### Numbers -/

/-- What stands behind a value does not go on with a number. -/
theorem Stops.head (stops : Stops rest) : ∀ c ∈ rest.head?,
    c.isDigit = false ∧ c ≠ '.' ∧ isExponentLetter c = false := by
  intro c isHead
  obtain blank | last := stops c isHead
  · simp only [isBlank, Bool.or_eq_true, beq_iff_eq] at blank
    obtain ((rfl | rfl) | rfl) | rfl := blank <;> decide
  · simp only [List.mem_cons, List.not_mem_nil, or_false] at last
    obtain rfl | rfl | rfl := last <;> decide

/-- Where no digit stands at the front, none is read. -/
theorem head_isDigit (ends : ∀ c ∈ rest.head?, c.isDigit = false) :
    (rest.head?.map Char.isDigit).getD false = false := by
  cases rest with
  | nil => rfl
  | cons c more => exact ends c rfl

theorem takeWhile_isDigit (ends : ∀ c ∈ rest.head?, c.isDigit = false) :
    rest.takeWhile Char.isDigit = [] := by
  cases rest with
  | nil => rfl
  | cons c more => rw [List.takeWhile_cons_of_neg (by simp [ends c rfl])]

theorem dropWhile_isDigit (ends : ∀ c ∈ rest.head?, c.isDigit = false) :
    rest.dropWhile Char.isDigit = rest := by
  cases rest with
  | nil => rfl
  | cons c more => rw [List.dropWhile_cons_of_neg (by simp [ends c rfl])]

theorem skipDigits_append (digits : Digits cs) (ends : ∀ c ∈ rest.head?, c.isDigit = false) :
    skipDigits (cs ++ rest) = .ok rest := by
  obtain ⟨nonempty, digits⟩ := digits
  have dropped : (cs ++ rest).dropWhile Char.isDigit = rest := by
    rw [List.dropWhile_append_of_pos digits, dropWhile_isDigit ends]
  cases cs with
  | nil => exact absurd rfl nonempty
  | cons c more => simpa [skipDigits, digits c List.mem_cons_self] using dropped

theorem skipExponent_append (exponent : Exponent cs) (stops : Stops rest) :
    skipExponent (cs ++ rest) = .ok rest := by
  cases exponent with
  | none =>
    cases rest with
    | nil => rfl
    | cons c more => simp [skipExponent, (stops.head c rfl).2.2]
  | @some letter sign cs isLetter isSign digits =>
    have skipped := skipDigits_append digits fun c isHead => (stops.head c isHead).1
    have letters : isExponentLetter letter := by
      simp only [List.mem_cons, List.not_mem_nil, or_false] at isLetter
      obtain rfl | rfl := isLetter <;> rfl
    simp only [List.mem_cons, List.not_mem_nil, or_false] at isSign
    simp only [List.cons_append, List.append_assoc, skipExponent, letters, if_true]
    obtain rfl | rfl | rfl := isSign
    · -- Without a sign the first digit is looked at.
      rw [List.nil_append]
      split <;> first | exact skipped | skip
      all_goals
        rename_i same
        obtain ⟨c, more, rfl⟩ := List.exists_cons_of_ne_nil digits.nonempty
        have isDigit := digits.digits c List.mem_cons_self
        rw [(List.cons.inj same).1] at isDigit
        cases isDigit
    · exact skipped
    · exact skipped

/-- An exponent, or what stands behind a number without one, does not go on with its digits. -/
theorem Exponent.head (exponent : Exponent cs) (stops : Stops rest) :
    ∀ c ∈ (cs ++ rest).head?, c.isDigit = false ∧ c ≠ '.' := by
  cases exponent with
  | none => exact fun c isHead => ⟨(stops.head c isHead).1, (stops.head c isHead).2.1⟩
  | some isLetter =>
    rintro c isHead
    cases isHead
    simp only [List.mem_cons, List.not_mem_nil, or_false] at isLetter
    obtain rfl | rfl := isLetter <;> decide

/-- Behind the digits in front of the decimal point, the rest of a number is passed over. -/
theorem skipNumber_whole (isWhole : Whole cs) :
    (∀ c ∈ rest.head?, c.isDigit = false) → skipNumber (cs ++ rest) =
      match rest with
      | '.' :: more => skipDigits more >>= skipExponent
      | _ => skipExponent rest := by
  intro ends
  cases isWhole with
  | zero =>
    rw [List.cons_append, List.nil_append, skipNumber]
    simp only [head_isDigit ends, Bool.false_eq_true, if_false]
    rfl
  | @digits c cs first nonzero more =>
    have digits : Digits (c :: cs) := ⟨List.cons_ne_nil c cs, List.forall_mem_cons.2 ⟨first, more⟩⟩
    rw [skipNumber, skipDigits_append digits ends]
    · rfl
    · intro more same
      exact nonzero (List.cons.inj same).1

/-- A number is passed over without its sign. -/
theorem skipNumber_append (magnitude : Magnitude cs) (stops : Stops rest) :
    skipNumber (cs ++ rest) = .ok rest := by
  obtain ⟨isWhole, isFraction, isExponent⟩ := magnitude
  have head := isExponent.head stops
  have passed := skipExponent_append isExponent stops
  rw [List.append_assoc, List.append_assoc]
  cases isFraction with
  | none =>
    rw [List.nil_append, skipNumber_whole isWhole fun c isHead => (head c isHead).1]
    split
    · rename_i same
      exact absurd rfl (head '.' (by rw [same]; rfl)).2
    · exact passed
  | some digits =>
    have digitsPassed := skipDigits_append digits fun c isHead => (head c isHead).1
    rw [List.cons_append, skipNumber_whole isWhole (by simp)]
    show (skipDigits _ >>= skipExponent) = _
    rw [digitsPassed]
    exact passed

/-- A natural number that was written has no zero at its front, unless it is zero. -/
theorem whole_repr (n : Nat) : Whole n.repr.toList := by
  rw [Nat.toList_repr]
  induction n using Nat.strongRecOn with
  | ind n ih =>
    rw [Nat.toDigits_eq_if (by decide)]
    split
    · rename_i small
      by_cases isZero : n = 0
      · rw [isZero]
        exact .zero
      · exact .digits (by simpa [Nat.isDigit_digitChar] using small) (by simpa using isZero) nofun
    · rename_i large
      -- The last digit is the remainder; the digits in front of it are those of the quotient, which
      -- is not zero.
      have last : (n % 10).digitChar.isDigit := by
        rw [Nat.isDigit_digitChar]
        exact decide_eq_true (Nat.mod_lt n (by decide))
      have front := ih (n / 10) (by omega)
      generalize digits : Nat.toDigits 10 (n / 10) = cs at front
      cases front with
      | zero =>
        have isZero : n / 10 = 0 := by
          rw [← Nat.ofDigitChars_ten_toDigits (n := n / 10), digits]
          rfl
        omega
      | digits first nonzero more =>
        refine .digits first nonzero fun c here => ?_
        obtain here | here := List.mem_append.1 here
        · exact more c here
        · rw [List.mem_singleton.1 here]
          exact last

theorem le_ofDigitChars (digits : List Char) (n : Nat) : n ≤ Nat.ofDigitChars 10 digits n := by
  induction digits generalizing n with
  | nil => simp
  | cons c rest ih =>
    rw [Nat.ofDigitChars_cons]
    exact Nat.le_trans (by omega) (ih _)

/-- Digits whose value fits are all kept. -/
theorem foldl_push (digits : List Char) (n : Nat)
    (fits : Nat.ofDigitChars 10 digits n ≤ maxSignificand) :
    digits.foldl Significand.push { value := n } = { value := Nat.ofDigitChars 10 digits n } := by
  induction digits generalizing n with
  | nil => simp
  | cons c rest ih =>
    rw [Nat.ofDigitChars_cons] at fits ⊢
    have pushed : Significand.push { value := n } c = { value := 10 * n + (c.toNat - '0'.toNat) } := by
      have here : n * 10 + digitValue c ≤ maxSignificand := by
        rw [Nat.mul_comm]
        exact Nat.le_trans (le_ofDigitChars rest _) fits
      rw [Significand.push, if_pos ⟨rfl, here⟩, Nat.mul_comm]
      rfl
    rw [List.foldl_cons, pushed, ih _ fits]

/-- A natural number that fits is read exactly. -/
theorem readNumber_repr (n : UInt64) (stops : Stops rest) :
    readNumber false (n.toNat.repr.toList ++ rest) = .ok (.natural n, rest) := by
  have ends : ∀ c ∈ rest.head?, c.isDigit = false := fun c isHead => (stops.head c isHead).1
  -- Behind the digits comes neither a fraction nor an exponent.
  have tail (m : Nat) : readTail false { value := m } rest = .ok (.natural (UInt64.ofNat m), rest) := by
    cases rest with
    | nil => simp [readTail]
    | cons c more =>
      obtain ⟨-, noPoint, noExponent⟩ := stops.head c rfl
      simp [readTail, noExponent]
  have value : Nat.ofDigitChars 10 n.toNat.repr.toList 0 = n.toNat := by
    rw [Nat.toList_repr, Nat.ofDigitChars_ten_toDigits]
  have isWhole := whole_repr n.toNat
  generalize n.toNat.repr.toList = cs at isWhole value
  cases isWhole with
  | zero =>
    have isZero : 0 = n.toNat := value
    rw [List.cons_append, List.nil_append, readNumber, if_neg (by simp [head_isDigit ends]), tail,
      isZero, UInt64.ofNat_toNat]
  | @digits c cs first nonzero more =>
    -- All digits are significant, since the number fits.
    have fits : Nat.ofDigitChars 10 (c :: cs) 0 ≤ maxSignificand := by
      rw [value]
      exact Nat.le_pred_of_lt n.toNat_lt
    have digits : ∀ d ∈ c :: cs, d.isDigit := List.forall_mem_cons.2 ⟨first, more⟩
    have taken : (c :: (cs ++ rest)).takeWhile Char.isDigit = c :: cs := by
      rw [← List.cons_append, List.takeWhile_append_of_pos digits, takeWhile_isDigit ends, List.append_nil]
    have dropped : (cs ++ rest).dropWhile Char.isDigit = rest := by
      rw [List.dropWhile_append_of_pos more, dropWhile_isDigit ends]
    rw [List.cons_append, readNumber, if_pos first, taken, dropped, Significand.ofDigits,
      foldl_push _ _ fits, tail, value, UInt64.ofNat_toNat]
    rintro rfl
    exact nonzero rfl

/-! ### Values -/

/-- A phrase is passed over, with the white space in front of it, in two steps for every character and
    one more inside an array or an object. -/
def Phrase.Skipped : Phrase → List Char → Prop
  | .value, cs => ∀ steps b rest, Blanks b → Stops rest → 2 * cs.length ≤ steps →
    skipValueIn steps (b ++ (cs ++ rest)) = .ok rest
  | .elements, cs => ∀ steps b rest, Blanks b → 2 * cs.length < steps →
    skipElements steps (b ++ (cs ++ ']' :: rest)) = .ok rest
  | .members, cs => ∀ steps b rest, Blanks b → 2 * cs.length < steps →
    skipMembers steps (b ++ (cs ++ '}' :: rest)) = .ok rest

/-- What stands behind the white space that is behind a value. -/
theorem stops_append {c : Char} (blanks : Blanks b) (last : c ∈ [',', '}', ']']) :
    Stops (b ++ c :: rest) := by
  intro d isHead
  cases b with
  | nil =>
    cases isHead
    exact .inr last
  | cons first more =>
    cases isHead
    exact .inl (blanks _ List.mem_cons_self)

/-- The white space in front of a value does not matter. -/
theorem skipValueIn_congr {cs' : List Char} (same : skipBlanks cs = skipBlanks cs') (steps : Nat) :
    skipValueIn (steps + 1) cs = skipValueIn (steps + 1) cs' := by
  rw [skipValueIn, same, skipValueIn]

/-- To pass over a value is to pass over what its first character begins. -/
theorem skipped_value {c : Char} {more : List Char} (begins : isBlank c = false)
    (passed : ∀ steps rest, Stops rest → 2 * more.length < steps →
      skipValueIn (steps + 1) (c :: (more ++ rest)) = .ok rest) : Phrase.value.Skipped (c :: more) := by
  intro steps b rest blanks stops enough
  rw [List.length_cons] at enough
  obtain ⟨steps, rfl⟩ := Nat.exists_eq_succ_of_ne_zero (show steps ≠ 0 by omega)
  rw [← passed steps rest stops (by omega), List.cons_append]
  exact skipValueIn_congr ((skipBlanks_append blanks begins).trans (skipBlanks_cons begins).symm) steps

theorem skipValueIn_digit {c : Char} (isDigit : c.isDigit) (steps : Nat) :
    skipValueIn (steps + 1) (c :: rest) = skipNumber (c :: rest) := by
  rw [skipValueIn, skipBlanks_cons (begins_of_isDigit isDigit).1]
  split
  case h_6 same =>
    obtain ⟨rfl, rfl⟩ := List.cons.inj same
    rw [if_pos isDigit]
  all_goals
    rename_i same
    cases same
  all_goals cases isDigit

theorem skipped_number (number : Number cs) : Phrase.value.Skipped cs := by
  cases number with
  | positive magnitude =>
    obtain ⟨c, more, rfl, isDigit⟩ := magnitude.head
    refine skipped_value (begins_of_isDigit isDigit).1 fun steps rest stops _ => ?_
    rw [skipValueIn_digit isDigit]
    exact skipNumber_append magnitude stops
  | negative magnitude => exact skipped_value rfl fun steps rest stops _ => skipNumber_append magnitude stops

theorem skipped_string (content : Quotable cs) : Phrase.value.Skipped ('"' :: (cs ++ ['"'])) := by
  refine skipped_value rfl fun steps rest _ _ => ?_
  obtain ⟨text, passed⟩ : ∃ text, readQuoted false (cs ++ '"' :: rest) = .ok (text, rest) :=
    skipQuoted_of_quotable content
  show (readQuoted false (cs ++ ['"'] ++ rest)).map (·.2) = .ok rest
  rw [List.append_assoc, List.singleton_append, passed]
  rfl

/-- An array is passed over with its elements, an object with its members. -/
theorem skipValueIn_array (cs : List Char) (steps : Nat) :
    skipValueIn (steps + 1) ('[' :: cs) =
      match skipBlanks cs with
      | [] => .error .endsEarly
      | ']' :: rest => .ok rest
      | rest => skipElements steps rest := rfl

theorem skipValueIn_object (cs : List Char) (steps : Nat) :
    skipValueIn (steps + 1) ('{' :: cs) =
      match skipBlanks cs with
      | [] => .error .endsEarly
      | '}' :: rest => .ok rest
      | rest => skipMembers steps rest := rfl

/-- Behind an element comes the end of the array or another element. -/
theorem skipElements_value {steps : Nat} (passed : skipValueIn steps cs = .ok rest) :
    skipElements (steps + 1) cs =
      match skipBlanks rest with
      | [] => .error .endsEarly
      | ']' :: rest => .ok rest
      | ',' :: rest => skipElements steps rest
      | _ => .error .malformed := by
  rewrite [skipElements, passed]
  rfl

/-- Behind a member comes the end of the object or another member. -/
theorem skipMembers_value {b₁ key value : List Char} (blanks : Blanks b) (quotable : Quotable key)
    (blanks₁ : Blanks b₁) {steps : Nat} (passed : skipValueIn steps value = .ok rest) :
    skipMembers (steps + 1) (b ++ '"' :: (key ++ '"' :: (b₁ ++ ':' :: value))) =
      match skipBlanks rest with
      | [] => .error .endsEarly
      | '}' :: rest => .ok rest
      | ',' :: rest => skipMembers steps rest
      | _ => .error .malformed := by
  obtain ⟨text, keyPassed⟩ : ∃ text, readQuoted false (key ++ '"' :: (b₁ ++ ':' :: value)) =
      .ok (text, b₁ ++ ':' :: value) := skipQuoted_of_quotable quotable
  rw [skipMembers, skipBlanks_append blanks rfl]
  simp only [keyPassed]
  rewrite [skipBlanks_append blanks₁ rfl]
  simp only
  rewrite [passed]
  rfl

theorem skipped_of_derives {phrase : Phrase} (derives : Derives phrase cs) : phrase.Skipped cs := by
  induction derives with
  | null | true | false => exact skipped_value rfl fun steps rest _ _ => rfl
  | number number => exact skipped_number number
  | string content => exact skipped_string content
  | emptyArray blanks =>
    refine skipped_value rfl fun steps rest _ _ => ?_
    rw [skipValueIn_array, List.append_assoc, List.singleton_append, skipBlanks_append blanks rfl]
    rfl
  | emptyObject blanks =>
    refine skipped_value rfl fun steps rest _ _ => ?_
    rw [skipValueIn_object, List.append_assoc, List.singleton_append, skipBlanks_append blanks rfl]
    rfl
  | array blanks elements ih =>
    refine skipped_value rfl fun steps rest _ enough => ?_
    simp only [List.length_append] at enough
    have passed := ih steps [] rest nofun (by omega)
    -- An element does not begin like the end of an array.
    obtain ⟨c, more, rfl, begins⟩ := elements.head
    rw [skipValueIn_array, List.append_assoc, List.append_assoc, List.cons_append,
      skipBlanks_append blanks begins.1]
    split <;> rename_i same
    · cases same
    · cases same
      exact absurd begins.2 (by decide)
    · exact passed
  | object blanks members ih =>
    refine skipped_value rfl fun steps rest _ enough => ?_
    simp only [List.length_append] at enough
    have passed := ih steps [] rest nofun (by omega)
    -- Nor does a member begin like the end of an object.
    obtain ⟨c, more, rfl, begins⟩ := members.head
    rw [skipValueIn_object, List.append_assoc, List.append_assoc, List.cons_append,
      skipBlanks_append blanks begins.1]
    split <;> rename_i same
    · cases same
    · cases same
      exact absurd begins.2 (by decide)
    · exact passed
  | @lastElement v b value blanks ih =>
    intro steps lead rest leads enough
    simp only [List.length_append] at enough
    -- Each element costs one step, of which there are more than there are characters.
    obtain ⟨steps, rfl⟩ := Nat.exists_eq_succ_of_ne_zero (Nat.ne_zero_of_lt enough)
    have passed := ih steps lead (b ++ ']' :: rest) leads (stops_append blanks (by simp)) (by omega)
    rw [List.append_assoc, skipElements_value passed, skipBlanks_append blanks rfl]
    rfl
  | @element v b b' cs value blanks blanks' _ ih ihMore =>
    intro steps lead rest leads enough
    simp only [List.length_append, List.length_cons] at enough
    obtain ⟨steps, rfl⟩ := Nat.exists_eq_succ_of_ne_zero (Nat.ne_zero_of_lt enough)
    have passed := ih steps lead (b ++ ',' :: (b' ++ (cs ++ ']' :: rest))) leads
      (stops_append blanks (by simp)) (by omega)
    simp only [List.append_assoc, List.cons_append]
    rw [skipElements_value passed, skipBlanks_append blanks rfl]
    exact ihMore steps b' rest blanks' (by omega)
  | @lastMember key b₁ b₂ v b₃ quotable blanks₁ blanks₂ value blanks₃ ih =>
    intro steps lead rest leads enough
    simp only [List.length_append, List.length_cons] at enough
    obtain ⟨steps, rfl⟩ := Nat.exists_eq_succ_of_ne_zero (Nat.ne_zero_of_lt enough)
    have passed := ih steps b₂ (b₃ ++ '}' :: rest) blanks₂ (stops_append blanks₃ (by simp)) (by omega)
    simp only [List.append_assoc, List.cons_append]
    rw [skipMembers_value leads quotable blanks₁ passed, skipBlanks_append blanks₃ rfl]
    rfl
  | @member key b₁ b₂ v b₃ b₄ cs quotable blanks₁ blanks₂ value blanks₃ blanks₄ _ ih ihMore =>
    intro steps lead rest leads enough
    simp only [List.length_append, List.length_cons] at enough
    obtain ⟨steps, rfl⟩ := Nat.exists_eq_succ_of_ne_zero (Nat.ne_zero_of_lt enough)
    have passed := ih steps b₂ (b₃ ++ ',' :: (b₄ ++ (cs ++ '}' :: rest))) blanks₂
      (stops_append blanks₃ (by simp)) (by omega)
    simp only [List.append_assoc, List.cons_append]
    rw [skipMembers_value leads quotable blanks₁ passed, skipBlanks_append blanks₃ rfl]
    exact ihMore steps b₄ rest blanks₄ (by omega)

/-- A value of any depth is passed over, with the white space in front of it. -/
theorem skipValue_of_derives (derives : Derives .value cs) (blanks : Blanks b) (stops : Stops rest) :
    skipValue (b ++ (cs ++ rest)) = .ok rest :=
  skipped_of_derives derives _ b rest blanks stops (by simp only [List.length_append]; omega)

end ProgressiveHtml.Json
