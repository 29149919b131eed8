import ProgressiveHtml.Json.Basic

namespace ProgressiveHtml.Json

/-!
# JSON — the grammar

What a JSON text is, told without a reader: white space, numbers, strings and what they spell, and values
of any depth.  Between the tokens of a value there may be white space.

* `Blanks`, `Stops` — white space, and what ends a value;
* `Number` — the form of a number;
* `Spells` — the ways of writing a text inside quotes;
* `Quotable` — what may stand inside quotes, whether or not it spells a text: the escapes of surrogates
  need not come in pairs;
* `Phrase`, `Derives` — values, the elements of an array and the members of an object.
-/

/-- White space between tokens. -/
def Blanks (cs : List Char) : Prop := ∀ c ∈ cs, isBlank c

/-- What stands behind a value in an array or an object. -/
def Stops (rest : List Char) : Prop := ∀ c ∈ rest.head?, isBlank c ∨ c ∈ [',', '}', ']']

/-! ### Numbers -/

/-- At least one decimal digit. -/
structure Digits (cs : List Char) : Prop where
  nonempty : cs ≠ []
  digits : ∀ c ∈ cs, c.isDigit

/-- The digits in front of the decimal point: no other digit stands behind a zero at the front. -/
inductive Whole : List Char → Prop
  | zero : Whole ['0']
  | digits {c : Char} {cs : List Char} (first : c.isDigit) (nonzero : c ≠ '0')
      (more : ∀ d ∈ cs, d.isDigit) : Whole (c :: cs)

/-- The decimal point and the digits behind it. -/
inductive Fraction : List Char → Prop
  | none : Fraction []
  | some {cs : List Char} (digits : Digits cs) : Fraction ('.' :: cs)

/-- The exponent. -/
inductive Exponent : List Char → Prop
  | none : Exponent []
  | some {letter : Char} {sign cs : List Char} (isLetter : letter ∈ ['e', 'E'])
      (isSign : sign ∈ [[], ['+'], ['-']]) (digits : Digits cs) : Exponent (letter :: (sign ++ cs))

/-- A number without its sign. -/
inductive Magnitude : List Char → Prop
  | mk {whole fraction exponent : List Char} (isWhole : Whole whole) (isFraction : Fraction fraction)
      (isExponent : Exponent exponent) : Magnitude (whole ++ (fraction ++ exponent))

/-- A number. -/
inductive Number : List Char → Prop
  | positive {cs : List Char} (magnitude : Magnitude cs) : Number cs
  | negative {cs : List Char} (magnitude : Magnitude cs) : Number ('-' :: cs)

/-! ### Strings -/

/-- The letters that stand behind a backslash, and the characters they stand for. -/
def shortEscapes : List (Char × Char) :=
  [('"', '"'), ('\\', '\\'), ('/', '/'), ('b', '\x08'), ('f', '\x0c'), ('n', '\n'), ('r', '\r'),
    ('t', '\t')]

/-- The digits of base sixteen and their values, in both cases. -/
def hexDigits : List (Char × Nat) :=
  "0123456789abcdef".toList.zipIdx ++ "ABCDEF".toList.zipIdx 10

/-- Four digits of base sixteen. -/
inductive Hex4 : Nat → List Char → Prop
  | mk {a b c d : Char} {i j k l : Nat} (first : (a, i) ∈ hexDigits) (second : (b, j) ∈ hexDigits)
      (third : (c, k) ∈ hexDigits) (fourth : (d, l) ∈ hexDigits) :
      Hex4 (((i * 16 + j) * 16 + k) * 16 + l) [a, b, c, d]

/-- The ways of writing a text inside quotes. -/
inductive Spells : (text written : List Char) → Prop
  | nil : Spells [] []
  /-- A character that is written as it is. -/
  | plain {c : Char} {text written : List Char} (printable : 0x20 ≤ c.toNat) (unquoted : c ≠ '"')
      (unescaped : c ≠ '\\') (more : Spells text written) : Spells (c :: text) (c :: written)
  /-- A letter behind a backslash. -/
  | short {letter c : Char} {text written : List Char} (escape : (letter, c) ∈ shortEscapes)
      (more : Spells text written) : Spells (c :: text) ('\\' :: letter :: written)
  /-- The number of a character. -/
  | unit {c : Char} {digits text written : List Char} (hex : Hex4 c.toNat digits)
      (more : Spells text written) : Spells (c :: text) ('\\' :: 'u' :: (digits ++ written))
  /-- The number of a character beyond the first plane, as a pair of surrogates. -/
  | pair {c : Char} {leading trailing : Nat} {digits digits' text written : List Char}
      (isLeading : 0xD800 ≤ leading ∧ leading ≤ 0xDBFF)
      (isTrailing : 0xDC00 ≤ trailing ∧ trailing ≤ 0xDFFF)
      (value : c.toNat = 0x10000 + (leading - 0xD800) * 0x400 + (trailing - 0xDC00))
      (hex : Hex4 leading digits) (hex' : Hex4 trailing digits') (more : Spells text written) :
      Spells (c :: text) ('\\' :: 'u' :: (digits ++ '\\' :: 'u' :: (digits' ++ written)))

/-- What may stand inside quotes. -/
inductive Quotable : List Char → Prop
  | nil : Quotable []
  | plain {c : Char} {written : List Char} (printable : 0x20 ≤ c.toNat) (unquoted : c ≠ '"')
      (unescaped : c ≠ '\\') (more : Quotable written) : Quotable (c :: written)
  | short {letter c : Char} {written : List Char} (escape : (letter, c) ∈ shortEscapes)
      (more : Quotable written) : Quotable ('\\' :: letter :: written)
  | unit {n : Nat} {digits written : List Char} (hex : Hex4 n digits) (more : Quotable written) :
      Quotable ('\\' :: 'u' :: (digits ++ written))

/-! ### Values -/

/-- What a piece of text can be. -/
inductive Phrase where
  /-- A value. -/
  | value
  /-- The elements of an array, with white space behind them. -/
  | elements
  /-- The members of an object, with white space behind them. -/
  | members

/-- The texts of values, and of elements and members with commas between them. -/
inductive Derives : Phrase → List Char → Prop
  | null : Derives .value ['n', 'u', 'l', 'l']
  | true : Derives .value ['t', 'r', 'u', 'e']
  | false : Derives .value ['f', 'a', 'l', 's', 'e']
  | number {cs : List Char} (number : Number cs) : Derives .value cs
  | string {cs : List Char} (content : Quotable cs) : Derives .value ('"' :: (cs ++ ['"']))
  | emptyArray {b : List Char} (blanks : Blanks b) : Derives .value ('[' :: (b ++ [']']))
  | array {b cs : List Char} (blanks : Blanks b) (elements : Derives .elements cs) :
      Derives .value ('[' :: (b ++ (cs ++ [']'])))
  | emptyObject {b : List Char} (blanks : Blanks b) : Derives .value ('{' :: (b ++ ['}']))
  | object {b cs : List Char} (blanks : Blanks b) (members : Derives .members cs) :
      Derives .value ('{' :: (b ++ (cs ++ ['}'])))
  | lastElement {v b : List Char} (value : Derives .value v) (blanks : Blanks b) :
      Derives .elements (v ++ b)
  | element {v b b' cs : List Char} (value : Derives .value v) (blanks : Blanks b)
      (blanks' : Blanks b') (more : Derives .elements cs) :
      Derives .elements (v ++ (b ++ ',' :: (b' ++ cs)))
  | lastMember {key b₁ b₂ v b₃ : List Char} (quotable : Quotable key) (blanks₁ : Blanks b₁)
      (blanks₂ : Blanks b₂) (value : Derives .value v) (blanks₃ : Blanks b₃) :
      Derives .members ('"' :: (key ++ '"' :: (b₁ ++ ':' :: (b₂ ++ (v ++ b₃)))))
  | member {key b₁ b₂ v b₃ b₄ cs : List Char} (quotable : Quotable key) (blanks₁ : Blanks b₁)
      (blanks₂ : Blanks b₂) (value : Derives .value v) (blanks₃ : Blanks b₃) (blanks₄ : Blanks b₄)
      (more : Derives .members cs) : Derives .members
        ('"' :: (key ++ '"' :: (b₁ ++ ':' :: (b₂ ++ (v ++ (b₃ ++ ',' :: (b₄ ++ cs)))))))

/-- What begins neither white space nor the end of an array or an object. -/
def Begins (c : Char) : Prop := isBlank c = Bool.false ∧ c ∉ [',', '}', ']']

instance (c : Char) : Decidable (Begins c) := inferInstanceAs (Decidable (_ ∧ _))

theorem begins_of_isDigit {c : Char} (isDigit : c.isDigit) : Begins c := by
  have other {d : Char} (noDigit : d.isDigit = Bool.false) : c ≠ d := by
    rintro rfl
    rw [isDigit] at noDigit
    cases noDigit
  refine ⟨?_, ?_⟩
  · simp only [isBlank, Bool.or_eq_false_iff, beq_eq_false_iff_ne]
    exact ⟨⟨⟨other rfl, other rfl⟩, other rfl⟩, other rfl⟩
  · simp only [List.mem_cons, List.not_mem_nil, or_false, not_or]
    exact ⟨other rfl, other rfl, other rfl⟩

theorem Whole.head {cs : List Char} (isWhole : Whole cs) : ∃ c rest, cs = c :: rest ∧ c.isDigit := by
  cases isWhole with
  | zero => exact ⟨'0', _, rfl, rfl⟩
  | digits first => exact ⟨_, _, rfl, first⟩

theorem Magnitude.head {cs : List Char} (magnitude : Magnitude cs) :
    ∃ c rest, cs = c :: rest ∧ c.isDigit := by
  obtain ⟨isWhole, -, -⟩ := magnitude
  obtain ⟨c, rest, rfl, isDigit⟩ := isWhole.head
  exact ⟨c, _, rfl, isDigit⟩

/-- A value, and so every phrase, begins with a character that tells it from white space and from the
    end of an array or an object. -/
theorem Derives.head {phrase : Phrase} {cs : List Char} (derives : Derives phrase cs) :
    ∃ c rest, cs = c :: rest ∧ Begins c := by
  induction derives with
  | null | true | false | string | emptyArray | array | emptyObject | object | lastMember | member =>
    exact ⟨_, _, rfl, by decide⟩
  | number number =>
    cases number with
    | positive magnitude =>
      obtain ⟨c, rest, rfl, isDigit⟩ := magnitude.head
      exact ⟨c, rest, rfl, begins_of_isDigit isDigit⟩
    | negative => exact ⟨'-', _, rfl, by decide⟩
  | lastElement _ _ ih | element _ _ _ _ ih =>
    obtain ⟨c, rest, rfl, begins⟩ := ih
    exact ⟨c, _, rfl, begins⟩

end ProgressiveHtml.Json
