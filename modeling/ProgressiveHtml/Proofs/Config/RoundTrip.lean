import Mathlib.Data.List.Permutation
import ProgressiveHtml.Config.Text
import ProgressiveHtml.Proofs.Json.Reading

namespace ProgressiveHtml.Config

/-!
# Configuration as text — writing and reading

A configuration is read from every text that tells it: from the text that is written for it, and from any
other JSON object in which its fields stand in some order, with white space between the tokens, with any
escapes inside quotes, and with unknown fields of any value among them.

* `Entry`, `Entry.Writes`, `WritesAll` — what a field tells, and the ways of writing it and several;
* `Tells` — the texts that tell a configuration;
* `readFields_of_writesAll` — what is read from fields;
* `ofChars_of_tells` — a configuration is read from every text that tells it;
* `tells_toText` — the text that is written tells the configuration;
* `survives_text` — so a configuration survives being written and read.
-/

open Json

/-! ### Texts that tell a configuration -/

/-- What a field tells. -/
inductive Entry where
  | timeout (millis : UInt64)
  | template (pattern : String)
  /-- It is not known. -/
  | unknown
  deriving DecidableEq

/-- Whether a field is known. -/
def Entry.isKnown : Entry → Bool
  | unknown => false
  | _ => true

/-- A field with its name and its value. -/
def member (name b b' value : List Char) : List Char :=
  '"' :: (name ++ '"' :: (b ++ ':' :: (b' ++ value)))

/-- The ways of writing a field. -/
inductive Entry.Writes : Entry → List Char → Prop
  | timeout {millis : UInt64} {name b b' : List Char} (spells : Spells timeoutField name)
      (blanks : Blanks b) (blanks' : Blanks b') :
      Writes (.timeout millis) (member name b b' millis.toNat.repr.toList)
  | template {pattern : String} {name b b' cs : List Char} (spells : Spells templateField name)
      (blanks : Blanks b) (blanks' : Blanks b') (content : Spells pattern.toList cs) :
      Writes (.template pattern) (member name b b' ('"' :: (cs ++ ['"'])))
  | unknown {text name b b' cs : List Char} (spells : Spells text name)
      (noTimeout : text ≠ timeoutField) (noTemplate : text ≠ templateField) (blanks : Blanks b)
      (blanks' : Blanks b') (value : Derives .value cs) : Writes .unknown (member name b b' cs)

/-- The ways of writing several fields, with white space behind the last one. -/
inductive WritesAll : List Entry → List Char → Prop
  | last {entry : Entry} {cs b : List Char} (writes : entry.Writes cs) (blanks : Blanks b) :
      WritesAll [entry] (cs ++ b)
  | more {entry : Entry} {rest : List Entry} {cs b b' others : List Char} (writes : entry.Writes cs)
      (blanks : Blanks b) (blanks' : Blanks b') (writesAll : WritesAll rest others) :
      WritesAll (entry :: rest) (cs ++ (b ++ ',' :: (b' ++ others)))

/-- The fields of a configuration. -/
def entries (c : Config) : List Entry :=
  .timeout c.timeoutMillis :: (c.template.map Entry.template).toList

/-- The texts that tell a configuration: an object with its fields in some order and others that are not
    known. -/
inductive Tells (c : Config) : List Char → Prop
  | mk {all : List Entry} {b b' cs b'' : List Char} (blanks : Blanks b) (blanks' : Blanks b')
      (writes : WritesAll all cs) (blanks'' : Blanks b'')
      (known : (all.filter Entry.isKnown).Perm c.entries) :
      Tells c (b ++ '{' :: (b' ++ (cs ++ '}' :: b'')))

/-! ### Reading fields -/

/-- The fields read so far and one more. -/
def Fields.with (fields : Fields) : Entry → Fields
  | .timeout millis => { fields with timeout := some millis }
  | .template pattern => { fields with template := some (some pattern) }
  | .unknown => fields

/-- A field has not been read so far. -/
def Fields.Lacks (fields : Fields) : Entry → Prop
  | .timeout _ => fields.timeout = none
  | .template _ => fields.template = none
  | .unknown => True

/-- None of some fields has been read, and none comes twice. -/
def Fields.LacksAll (fields : Fields) : List Entry → Prop
  | [] => True
  | entry :: rest => fields.Lacks entry ∧ (fields.with entry).LacksAll rest

/-- What stands in front of a field: white space, and a comma if it is not the first. -/
inductive Lead : Bool → List Char → Prop
  | first {b : List Char} (blanks : Blanks b) : Lead true b
  | later {b b' : List Char} (blanks : Blanks b) (blanks' : Blanks b') : Lead false (b ++ ',' :: b')

variable {isFirst : Bool} {front b b' cs text name rest : List Char} {fields : Fields}
  {entry : Entry} {all : List Entry} {c : Config}

theorem nextField_of_lead (lead : Lead isFirst front) (spells : Spells text name) :
    nextField isFirst (front ++ '"' :: (name ++ '"' :: rest)) = .ok (some text, rest) := by
  have read : nextField.name ('"' :: (name ++ '"' :: rest)) = .ok (some text, rest) := by
    rw [nextField.name, readQuoted_of_spells spells]
    rfl
  cases lead with
  | first blanks =>
    rw [nextField, skipBlanks_append blanks rfl]
    exact read
  | later blanks blanks' =>
    rw [List.append_assoc, List.cons_append, nextField, skipBlanks_append blanks rfl]
    show nextField.name (skipBlanks _) = _
    rw [skipBlanks_append blanks' rfl]
    exact read

theorem nextField_end (blanks : Blanks b) :
    nextField isFirst (b ++ '}' :: rest) = .ok (none, rest) := by
  rw [nextField, skipBlanks_append blanks rfl]
  rfl

theorem readColon_append (blanks : Blanks b) : readColon (b ++ ':' :: rest) = .ok rest := by
  rw [readColon, skipBlanks_append blanks rfl]
  rfl

theorem readTimeout_repr (blanks : Blanks b) (millis : UInt64) (stops : Stops rest) :
    readTimeout (b ++ (millis.toNat.repr.toList ++ rest)) = .ok (millis, rest) := by
  have read := readNumber_repr millis stops
  obtain ⟨c, more, same, isDigit⟩ := (whole_repr millis.toNat).head
  rw [same, List.cons_append] at read ⊢
  rw [readTimeout, skipBlanks_append blanks (begins_of_isDigit isDigit).1]
  split
  case h_3 same =>
    obtain ⟨rfl, rfl⟩ := List.cons.inj same
    rw [if_pos isDigit, read]
    rfl
  all_goals
    rename_i same
    cases same
  cases isDigit

theorem readTemplate_of_spells (blanks : Blanks b) (spells : Spells text cs) :
    readTemplate (b ++ '"' :: (cs ++ '"' :: rest)) = .ok (some (String.ofList text), rest) := by
  rw [readTemplate, skipBlanks_append blanks rfl]
  simp only [readQuoted_of_spells spells]
  rfl

/-- A field that has not been read so far is read as what it tells. -/
theorem readField_of_writes (writes : entry.Writes cs) (lacks : fields.Lacks entry) (stops : Stops rest) :
    ∃ text name tail, cs = '"' :: (name ++ '"' :: tail) ∧ Spells text name ∧
      readField fields text (tail ++ rest) = .ok (fields.with entry, rest) := by
  cases writes with
  | timeout spells blanks blanks' =>
    refine ⟨_, _, _, rfl, spells, ?_⟩
    -- A field that is there already would be refused as a duplicate.
    have missing : fields.timeout = none := lacks
    rw [List.append_assoc, List.cons_append, List.append_assoc, readField, if_pos rfl, missing,
      if_neg (by simp), readColon_append blanks]
    simp only [bind, Except.bind, readTimeout_repr blanks' _ stops]
    rfl
  | template spells blanks blanks' content =>
    refine ⟨_, _, _, rfl, spells, ?_⟩
    have missing : fields.template = none := lacks
    rw [List.append_assoc, List.cons_append, List.append_assoc, List.cons_append, List.append_assoc,
      readField, if_neg (by decide), if_pos rfl, missing, if_neg (by simp), readColon_append blanks]
    simp only [bind, Except.bind, List.singleton_append, readTemplate_of_spells blanks' content]
    simp only [String.ofList_toList]
    rfl
  | unknown spells noTimeout noTemplate blanks blanks' value =>
    refine ⟨_, _, _, rfl, spells, ?_⟩
    -- The value of a field that is not known is read to its end and forgotten.
    rw [List.append_assoc, List.cons_append, List.append_assoc, readField, if_neg noTimeout,
      if_neg noTemplate, readColon_append blanks]
    simp only [bind, Except.bind, skipValue_of_derives value blanks' stops]
    rfl

/-- Fields are read as what they tell, up to the closing brace. -/
theorem readFields_of_writesAll (writes : WritesAll all cs) (lacks : fields.LacksAll all) {most : Nat}
    (enough : all.length < most) (lead : Lead isFirst front) :
    readFields most isFirst fields (front ++ (cs ++ '}' :: rest)) =
      .ok (all.foldl Fields.with fields, rest) := by
  induction writes generalizing fields most isFirst front with
  | @last entry cs b writes blanks =>
    -- One round reads the field, and another one finds the brace behind it.
    obtain ⟨most, rfl⟩ := Nat.exists_eq_succ_of_ne_zero (Nat.ne_zero_of_lt enough)
    obtain ⟨most, rfl⟩ := Nat.exists_eq_succ_of_ne_zero (show most ≠ 0 by simp at enough; omega)
    have stops : Stops (b ++ '}' :: rest) := stops_append blanks (by simp)
    obtain ⟨text, name, tail, rfl, spells, read⟩ := readField_of_writes writes lacks.1 stops
    simp only [List.append_assoc, List.cons_append]
    rw [readFields, nextField_of_lead lead spells]
    simp only [bind, Except.bind, read]
    rw [readFields, nextField_end blanks]
    rfl
  | @more entry others cs b b' text writes blanks blanks' _ ih =>
    obtain ⟨most, rfl⟩ := Nat.exists_eq_succ_of_ne_zero (Nat.ne_zero_of_lt enough)
    have stops : Stops (b ++ ',' :: (b' ++ (text ++ '}' :: rest))) := stops_append blanks (by simp)
    obtain ⟨text, name, tail, rfl, spells, read⟩ := readField_of_writes writes lacks.1 stops
    simp only [List.append_assoc, List.cons_append]
    rw [readFields, nextField_of_lead lead spells]
    simp only [bind, Except.bind, read]
    -- Behind the comma the others are read in the same way.
    have later := ih lacks.2 (Nat.lt_of_succ_lt_succ enough) (Lead.later blanks blanks')
    rw [List.append_assoc, List.cons_append] at later
    exact later

/-- Fields that are not known leave no trace. -/
theorem foldl_with_filter (all : List Entry) (fields : Fields) :
    (all.filter Entry.isKnown).foldl Fields.with fields = all.foldl Fields.with fields ∧
      (fields.LacksAll (all.filter Entry.isKnown) ↔ fields.LacksAll all) := by
  induction all generalizing fields with
  | nil => exact ⟨rfl, Iff.rfl⟩
  | cons entry rest ih =>
    obtain ⟨same, lacks⟩ := ih (fields.with entry)
    cases entry with
    | unknown => exact ⟨same, lacks.trans ⟨fun lacksAll => ⟨trivial, lacksAll⟩, And.right⟩⟩
    | _ => exact ⟨same, and_congr_right fun _ => lacks⟩

/-- The fields of a configuration give the configuration, in whichever order. -/
theorem ofFields_of_perm (known : all.Perm c.entries) :
    Fields.LacksAll {} all ∧ ofFields (all.foldl Fields.with {}) = c := by
  rcases c with ⟨millis, _ | pattern⟩
  · obtain rfl := List.perm_singleton.1 known
    exact ⟨⟨rfl, trivial⟩, rfl⟩
  · obtain rfl | rfl := List.perm_pair.1 known
    · exact ⟨⟨rfl, rfl, trivial⟩, rfl⟩
    · exact ⟨⟨rfl, rfl, trivial⟩, rfl⟩

theorem WritesAll.length_le (writes : WritesAll all cs) : all.length ≤ cs.length := by
  have nonempty {entry : Entry} {cs : List Char} (writes : entry.Writes cs) : 0 < cs.length := by
    cases writes <;> exact Nat.succ_pos _
  induction writes with
  | last writes =>
    have := nonempty writes
    simp only [List.length_append, List.length_singleton]
    omega
  | more writes _ _ _ ih =>
    simp only [List.length_append, List.length_cons]
    omega

/-- A configuration is read from every text that tells it. -/
theorem ofChars_of_tells (tells : c.Tells cs) : ofChars cs = .ok c := by
  cases tells with
  | @mk all b b' cs b'' blanks blanks' writes blanks'' known =>
    obtain ⟨lacks, gives⟩ := ofFields_of_perm known
    obtain ⟨same, lacksAll⟩ := foldl_with_filter all {}
    have length := writes.length_le
    have read : readFields ((b' ++ (cs ++ '}' :: b'')).length + 1) true {} (b' ++ (cs ++ '}' :: b'')) =
        .ok (all.foldl Fields.with {}, b'') :=
      readFields_of_writesAll writes (lacksAll.1 lacks)
        (by simp only [List.length_append]; omega) (.first blanks')
    rw [ofChars, skipBlanks_append blanks rfl]
    simp only [bind, Except.bind, read, skipBlanks_of_blanks blanks'', ← same, gives]
    rfl

/-! ### Writing -/

/-- The text that is written for a configuration tells it. -/
theorem tells_toText (c : Config) : c.Tells c.toText.toList := by
  have none : Blanks [] := nofun
  have timeout : (Entry.timeout c.timeoutMillis).Writes
      (member (timeoutField.flatMap quoteChar) [] [] c.timeoutMillis.toNat.repr.toList) :=
    .timeout (spells_quote _) none none
  -- Nothing blank is written anywhere, and the second field only if there is a template.
  cases template : c.template with
  | none =>
    have written : c.toText.toList =
        [] ++ '{' :: ([] ++ (member (timeoutField.flatMap quoteChar) [] []
          c.timeoutMillis.toNat.repr.toList ++ [] ++ '}' :: [])) := by
      simp [toText, template, quote, member]
    rw [written]
    refine .mk none none (.last timeout none) none ?_
    rw [entries, template]
    exact .refl _
  | some pattern =>
    have written : c.toText.toList =
        [] ++ '{' :: ([] ++ (member (timeoutField.flatMap quoteChar) [] []
          c.timeoutMillis.toNat.repr.toList ++ ([] ++ ',' :: ([] ++ (member
            (templateField.flatMap quoteChar) [] []
            ('"' :: (pattern.toList.flatMap quoteChar ++ ['"'])) ++ []))) ++ '}' :: [])) := by
      simp [toText, template, quote, member]
    rw [written]
    refine .mk none none (.more timeout none none (.last (.template (spells_quote _) none none
      (spells_quote _)) none)) none ?_
    rw [entries, template]
    exact .refl _

/-- A configuration survives being written and read: the text that is written tells it, and it is read
    from this text and from every other one that tells it, with white space between the tokens, the fields
    in another order, and fields that are not known among them, whatever their values. -/
theorem survives_text (c : Config) :
    ofText? c.toText = .ok c ∧ c.Tells c.toText.toList ∧
      ∀ text : String, c.Tells text.toList → ofText? text = .ok c :=
  ⟨ofChars_of_tells c.tells_toText, c.tells_toText, fun _ tells => ofChars_of_tells tells⟩

/-- The largest timeout and a pattern with escapes: the fields stand in the other order, with white space,
    behind a field that is not known. -/
theorem survives_text_in_disorder :
    let c : Config := { timeoutMillis := 18446744073709551615, template := some "\"\x01😀" }
    let text := " \x7b \"x\":[null,\x7b\"y\" : -2.5\x7d],"
      ++ "\"template\":\"\\\"\\u0001\\ud83d\\uDE00\" ,\n\"timeout_ms\" : 18446744073709551615\x7d "
    c.Tells text.toList ∧ ofText? text = .ok c := by
  intro c text
  have none : Blanks [] := nofun
  have blank : Blanks [' '] := by simp [Blanks, isBlank]
  have line : Blanks ['\n'] := by simp [Blanks, isBlank]
  have number : Derives .value ('-' :: (['2'] ++ ('.' :: ['5'] ++ []))) :=
    .number (.negative (.mk (.digits rfl (by decide) nofun) (.some ⟨by simp, by simp⟩) .none))
  have key : Quotable ['y'] := .plain (by decide) (by decide) (by decide) .nil
  have value := Derives.array none (.element .null none none
    (.lastElement (.object none (.lastMember key blank blank number none)) none))
  have x : Spells ['x'] ['x'] := .plain (by decide) (by decide) (by decide) .nil
  -- U+1F600 is written as the pair D83D, DE00, in digits of either case.
  have leading : Hex4 0xD83D ['d', '8', '3', 'd'] :=
    @Hex4.mk _ _ _ _ 13 8 3 13 (by decide) (by decide) (by decide) (by decide)
  have trailing : Hex4 0xDE00 ['D', 'E', '0', '0'] :=
    @Hex4.mk _ _ _ _ 13 14 0 0 (by decide) (by decide) (by decide) (by decide)
  have control : Hex4 0x01 ['0', '0', '0', '1'] :=
    @Hex4.mk _ _ _ _ 0 0 0 1 (by decide) (by decide) (by decide) (by decide)
  have chars : "\"\x01😀".toList = ['"', '\x01', '😀'] := by decide +kernel
  have pair : Spells ['😀'] _ := .pair (by decide) (by decide) (by decide) leading trailing .nil
  have unit : Spells ['\x01', '😀'] _ := .unit control pair
  have content := @Spells.short '"' '"' _ _ (by decide) unit
  rw [← chars] at content
  have known : ([.unknown, .template "\"\x01😀", .timeout 18446744073709551615].filter
      Entry.isKnown).Perm c.entries := .swap _ _ _
  have tells := Tells.mk blank blank
    (.more (.unknown x (by decide) (by decide) none none value) none none
      (.more (.template (spells_quote _) none none content) blank line
        (.last (.timeout (spells_quote _) blank blank) none))) blank known
  have told : c.Tells text.toList := by
    convert tells using 1
    decide +kernel
  exact ⟨told, (survives_text c).2.2 text told⟩

end ProgressiveHtml.Config
