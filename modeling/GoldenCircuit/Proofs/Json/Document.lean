import GoldenCircuit.Proofs.Json.RoundTrip

/-! Every text of a JSON value is read as that value. A document is a derivation of the grammar: it
says which text it is and which value the text stands for, so that no printer decides where white
space stands and how strings and numbers are spelled. -/
namespace GoldenCircuit.Json

/-! ### Literals -/

/-- White space, as it may stand around every value and every mark. -/
structure Blanks where
  chars : List Char
  blank : ∀ char ∈ chars, isBlank char = true

/-- No white space. -/
def Blanks.empty : Blanks :=
  ⟨[], List.forall_mem_nil _⟩

/-- Whether a character can stand in a string as it is. -/
def isPlain (char : Char) : Bool :=
  char != '"' && char != '\\' && !decide (char.toNat < 0x20)

/-- One of the ways in which a code unit can be spelled in a string. -/
inductive Spelling where
  | plain (char : Char) (itself : isPlain char = true)
  | short (letter char : Char) (named : shortEscape? letter = some char)
  | hex (first second third fourth : Char) (code : Nat)
      (named : hexCode? first second third fourth = some code)

namespace Spelling

def chars : Spelling → List Char
  | plain char .. => [char]
  | short letter .. => ['\\', letter]
  | hex first second third fourth .. => ['\\', 'u', first, second, third, fourth]

def unit : Spelling → CodeUnit
  | plain char .. | short _ char _ => .char char
  | hex _ _ _ _ code _ => unitOfCode code

/-- The characters of a text, if all of them can stand in a string as they are. -/
def ofText (text : String) (plain : text.toList.all isPlain = true) : List Spelling :=
  text.toList.pmap .plain (List.all_eq_true.mp plain)

end Spelling

/-- The text of a string behind its opening quote, up to its closing quote. -/
def spelledChars (spelled : List Spelling) : List Char :=
  spelled.flatMap Spelling.chars

/-- The exponent of a number. Its digits may start with zeros. -/
structure Exponent where
  upper : Bool
  /-- Whether the sign is a minus, if there is a sign. -/
  minus : Option Bool
  digits : List Char
  some_digit : digits ≠ []
  all_digits : ∀ digit ∈ digits, digit.isDigit = true

namespace Exponent

def sign (exponent : Exponent) : List Char :=
  match exponent.minus with
  | none => []
  | some false => ['+']
  | some true => ['-']

def chars (exponent : Exponent) : List Char :=
  (if exponent.upper then 'E' else 'e') :: (exponent.sign ++ exponent.digits)

def value (exponent : Exponent) : Int :=
  if exponent.minus = some true then -(Text.digitsFrom 0 exponent.digits : Int)
  else Text.digitsFrom 0 exponent.digits

end Exponent

/-- A number as it is spelled. The digits before the point start with no zero, unless it is the only
one, and so they are settled by what they stand for. -/
structure Numeral where
  negative : Bool := false
  whole : Nat
  fraction : List (Fin 10) := []
  exponent : Option Exponent := none

namespace Numeral

def exponentChars (numeral : Numeral) : List Char :=
  numeral.exponent.elim [] Exponent.chars

def chars (numeral : Numeral) : List Char :=
  (if numeral.negative then ['-'] else []) ++ (digits numeral.whole ++
    (fractionText numeral.fraction ++ numeral.exponentChars))

def number (numeral : Numeral) : Number :=
  { numeral with exponent := numeral.exponent.map Exponent.value }

end Numeral

theorem readUnits_spelling (spelling : Spelling) (rest : List Char) :
    readUnits (spelling.chars ++ rest) =
      (readUnits rest).map fun read => (spelling.unit :: read.1, read.2) := by
  cases spelling with
  | plain char itself =>
    simp only [isPlain, Bool.and_eq_true, bne_iff_ne, Bool.not_eq_true', decide_eq_false_iff_not]
      at itself
    obtain ⟨⟨quote, backslash⟩, printable⟩ := itself
    exact readUnits_plain quote backslash printable rest
  | short letter char named => exact readUnits_shortEscape named rest
  | hex first second third fourth code named => exact readUnits_codeEscape named rest

theorem readUnits_spelledChars (spelled : List Spelling) (rest : List Char) :
    readUnits (spelledChars spelled ++ '"' :: rest) = some (spelled.map Spelling.unit, rest) := by
  induction spelled with
  | nil => rfl
  | cons spelling spelled ih =>
    rw [spelledChars, List.flatMap_cons, List.append_assoc, readUnits_spelling, ← spelledChars, ih]
    rfl

theorem readSigned_exponent (exponent : Exponent) {rest : List Char}
    (ends : ∀ next ∈ rest.head?, next.isDigit = false) :
    readSigned (exponent.sign ++ (exponent.digits ++ rest)) = some (exponent.value, rest) := by
  obtain ⟨upper, minus, digits, some_digit, all_digits⟩ := exponent
  have read := readDigits_append some_digit all_digits ends
  cases minus with
  | none =>
    have no_sign {mark : Char} (other : mark.isDigit = false) (text : List Char) :
        digits ++ rest ≠ mark :: text := by
      obtain ⟨first, others, rfl⟩ := List.exists_cons_of_ne_nil some_digit
      intro same
      have first_digit := all_digits first List.mem_cons_self
      rw [(List.cons.inj same).1, other] at first_digit
      contradiction
    show readSigned (digits ++ rest) = _
    rw [readSigned.eq_3 _ (no_sign (by decide)) (no_sign (by decide)), read]
    rfl
  | some minus =>
    cases minus with
    | false =>
      show readSigned ('+' :: (digits ++ rest)) = _
      rw [readSigned, read]
      rfl
    | true =>
      show readSigned ('-' :: (digits ++ rest)) = _
      rw [readSigned, read]
      rfl

theorem readExponent_exponentChars (numeral : Numeral) {rest : List Char}
    (ends : EndsNumber rest) : readExponent (numeral.exponentChars ++ rest) =
      some (numeral.exponent.map Exponent.value, rest) := by
  obtain ⟨negative, whole, fraction, exponent⟩ := numeral
  cases exponent with
  | none => exact readExponent_exponentText none ends
  | some exponent =>
    have read := readSigned_exponent exponent fun next among => (ends next among).1
    rw [← List.append_assoc] at read
    show readExponent ((if exponent.upper then 'E' else 'e') ::
      (exponent.sign ++ exponent.digits ++ rest)) = _
    cases exponent.upper with
    | false => rw [if_neg Bool.false_ne_true, readExponent, read]; rfl
    | true => rw [if_pos rfl, readExponent, read]; rfl

theorem reads_numeral (numeral : Numeral) : Reads numeral.chars (.number numeral.number) := by
  refine reads_of_readNumber (exists_signed_eq_cons numeral.negative numeral.whole _) ?_
  intro rest ends
  have after : ∀ next ∈ (numeral.exponentChars ++ rest).head?,
      next.isDigit = false ∧ next ≠ '.' := by
    rw [Numeral.exponentChars]
    cases numeral.exponent with
    | none => exact fun next among => ⟨(ends next among).1, (ends next among).2.1⟩
    | some exponent => cases upper : exponent.upper <;> simp [Exponent.chars, upper]
  have read := readNumber_append numeral.negative numeral.whole numeral.fraction
    (readExponent_exponentChars numeral ends) after
  simpa only [Numeral.chars, Numeral.number, List.append_assoc] using read

/-! ### Values -/

mutual

/-- A text of a value, from its first to its last visible character. -/
inductive Document where
  | null
  | bool (value : Bool)
  | number (numeral : Numeral)
  | string (spelled : List Spelling)
  | emptyArray (inside : Blanks)
  | array (items : Items)
  | emptyObject (inside : Blanks)
  | object (members : Members)

/-- One or more items, with commas between them. -/
inductive Items where
  | last (before : Blanks) (item : Document) (after : Blanks)
  | next (before : Blanks) (item : Document) (after : Blanks) (others : Items)

/-- One or more members, with commas between them. The second white space of a member stands before
its colon, and the third one behind it. -/
inductive Members where
  | last (before : Blanks) (name : List Spelling) (between before_value : Blanks)
      (value : Document) (after : Blanks)
  | next (before : Blanks) (name : List Spelling) (between before_value : Blanks)
      (value : Document) (after : Blanks) (others : Members)

end

/-- The name of a member in its quotes, with white space around it and the colon. -/
def nameChars (before : Blanks) (name : List Spelling) (between : Blanks) : List Char :=
  before.chars ++ '"' :: (spelledChars name ++ '"' :: (between.chars ++ [':']))

mutual

def Document.chars : Document → List Char
  | .null => "null".toList
  | .bool true => "true".toList
  | .bool false => "false".toList
  | .number numeral => numeral.chars
  | .string spelled => '"' :: (spelledChars spelled ++ ['"'])
  | .emptyArray inside => '[' :: (inside.chars ++ [']'])
  | .array items => '[' :: (items.chars ++ [']'])
  | .emptyObject inside => '\x7b' :: (inside.chars ++ ['\x7d'])
  | .object members => '\x7b' :: (members.chars ++ ['\x7d'])

def Items.chars : Items → List Char
  | .last before item after => before.chars ++ item.chars ++ after.chars
  | .next before item after others =>
    before.chars ++ item.chars ++ (after.chars ++ ',' :: others.chars)

def Members.chars : Members → List Char
  | .last before name between before_value value after =>
    nameChars before name between ++ (before_value.chars ++ value.chars) ++ after.chars
  | .next before name between before_value value after others =>
    nameChars before name between ++ (before_value.chars ++ value.chars) ++
      (after.chars ++ ',' :: others.chars)

end

mutual

/-- The value that a document stands for. -/
def Document.value : Document → Value
  | .null => .null
  | .bool value => .bool value
  | .number numeral => .number numeral.number
  | .string spelled => .string (spelled.map Spelling.unit)
  | .emptyArray _ => .array []
  | .array items => .array items.values
  | .emptyObject _ => .object []
  | .object members => .object members.members

def Items.values : Items → List Value
  | .last _ item _ => [item.value]
  | .next _ item _ others => item.value :: others.values

def Members.members : Members → List (List CodeUnit × Value)
  | .last _ name _ _ value _ => [(name.map Spelling.unit, value.value)]
  | .next _ name _ _ value _ others => (name.map Spelling.unit, value.value) :: others.members

end

theorem readsMember_nameChars (before : Blanks) (name : List Spelling) (between : Blanks)
    {blanks : Blanks} {shown : List Char} {value : Value} (reads : Reads shown value) :
    ReadsMember (nameChars before name between ++ (blanks.chars ++ shown))
      (name.map Spelling.unit, value) := by
  refine ⟨_, _, fun rest => ?_, reads.append blanks.blank, rfl⟩
  have read := readName_spelled before.blank (readUnits_spelledChars name) between.blank rest
  simpa [nameChars] using read

mutual

theorem Document.reads : (document : Document) → Reads document.chars document.value
  | .null => reads_null
  | .bool true => reads_true
  | .bool false => reads_false
  | .number numeral => reads_numeral numeral
  | .string spelled => reads_spelled (readUnits_spelledChars spelled)
  | .emptyArray inside => reads_array .nil inside.blank
  | .array items => reads_items items.reads
  | .emptyObject inside => reads_object .nil inside.blank
  | .object members => reads_members members.reads

theorem Items.reads : (items : Items) → ReadsItems items.chars items.values
  | .last before item after => .last (item.reads.append before.blank) after.blank
  | .next before item after others =>
    .next (item.reads.append before.blank) after.blank others.reads

theorem Members.reads : (members : Members) → ReadsMembers members.chars members.members
  | .last before name between _ value after =>
    .last (readsMember_nameChars before name between value.reads) after.blank
  | .next before name between _ value after others =>
    .next (readsMember_nameChars before name between value.reads) after.blank others.reads

end

/-- A whole text: a document with white space around it. -/
structure Source where
  before : Blanks
  document : Document
  after : Blanks

def Source.text (source : Source) : String :=
  String.ofList (source.before.chars ++ source.document.chars ++ source.after.chars)

/-- Whatever way a value is written, it is read. -/
theorem parse?_text (source : Source) : parse? source.text = some source.document.value := by
  have reads := source.document.reads.append source.before.blank
  rw [Source.text, String.ofList_append]
  exact Reads.parse?_append (by simpa using reads) (by simpa using source.after.blank)

end GoldenCircuit.Json
