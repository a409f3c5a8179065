import Mathlib.Data.List.DropRight
import Mathlib.Data.List.Forall2
import GoldenCircuit.Json.Printer
import GoldenCircuit.Json.Reader
import GoldenCircuit.Proofs.Json.Literal

/-! JSON values read back from their texts. What makes a text readable does not depend on a layout:
white space may stand before every item and member. -/
namespace GoldenCircuit.Json

open Text (openBrace closeBrace)

variable {blanks text rest : List Char} {fuel : Nat} {value : Value}

attribute [local simp] readValue readItems readMembers

/-! ### White space -/

theorem skipBlank_append (blank : ∀ char ∈ blanks, isBlank char = true) (text : List Char) :
    skipBlank (blanks ++ text) = skipBlank text :=
  List.dropWhile_append_of_pos blank

theorem readValue_append (blank : ∀ char ∈ blanks, isBlank char = true) (fuel : Nat)
    (text : List Char) : readValue fuel (blanks ++ text) = readValue fuel text := by
  cases fuel with
  | zero => rfl
  | succ fuel => rw [readValue, readValue, skipBlank_append blank]

theorem endsNumber_append (blank : ∀ char ∈ blanks, isBlank char = true)
    (ends : EndsNumber text) : EndsNumber (blanks ++ text) := by
  cases blanks with
  | nil => exact ends
  | cons first blanks =>
    have space := blank first List.mem_cons_self
    simp only [isBlank, Bool.or_eq_true, beq_iff_eq] at space
    rcases space with ((rfl | rfl) | rfl) | rfl
    all_goals simp [EndsNumber]

/-! ### Readable texts -/

/-- Whatever follows the text, the value is read and the rest is left over. Two steps for each
character are enough. -/
def Reads (text : List Char) (value : Value) : Prop :=
  ∀ (fuel : Nat) (rest : List Char), 2 * text.length ≤ fuel → EndsNumber rest →
    readValue fuel (text ++ rest) = some (value, rest)

/-- A member is read as its name with the colon after it, and a text of its value. -/
def ReadsMember (text : List Char) (member : List CodeUnit × Value) : Prop :=
  ∃ front shown, (∀ rest, readName (front ++ rest) = some (member.1, rest)) ∧
    Reads shown member.2 ∧ text = front ++ shown

/-- Items with commas between them are read up to the bracket after them. -/
def ReadsItems (text : List Char) (items : List Value) : Prop :=
  ∀ (fuel : Nat) (rest : List Char), 2 * text.length + 1 ≤ fuel →
    readItems fuel (text ++ ']' :: rest) = some (items, rest)

/-- Members with commas between them are read up to the brace after them. -/
def ReadsMembers (text : List Char) (members : List (List CodeUnit × Value)) : Prop :=
  ∀ (fuel : Nat) (rest : List Char), 2 * text.length + 1 ≤ fuel →
    readMembers fuel (text ++ '\x7d' :: rest) = some (members, rest)

theorem Reads.append (blank : ∀ char ∈ blanks, isBlank char = true) (reads : Reads text value) :
    Reads (blanks ++ text) value := by
  intro fuel rest enough ends
  rw [List.append_assoc, readValue_append blank]
  refine reads fuel rest ?_ ends
  rw [List.length_append] at enough
  omega

theorem reads_of_step (some_char : text ≠ [])
    (step : ∀ (fuel : Nat) (rest : List Char), 2 * text.length ≤ fuel + 1 → EndsNumber rest →
      readValue (fuel + 1) (text ++ rest) = some (value, rest)) : Reads text value := by
  intro fuel rest enough ends
  have positive := List.length_pos_iff.mpr some_char
  cases fuel with
  | zero => omega
  | succ fuel => exact step fuel rest enough ends

theorem reads_null : Reads "null".toList .null :=
  reads_of_step (by simp) fun _ _ _ _ => by simp [skipBlank, isBlank]

theorem reads_true : Reads "true".toList (.bool true) :=
  reads_of_step (by simp) fun _ _ _ _ => by simp [skipBlank, isBlank]

theorem reads_false : Reads "false".toList (.bool false) :=
  reads_of_step (by simp) fun _ _ _ _ => by simp [skipBlank, isBlank]

theorem reads_spelled {inside : List Char} {units : List CodeUnit}
    (read : ∀ rest, readUnits (inside ++ '"' :: rest) = some (units, rest)) :
    Reads ('"' :: (inside ++ ['"'])) (.string units) :=
  reads_of_step (List.cons_ne_nil _ _) fun _ _ _ _ => by simp [skipBlank, isBlank, read]

theorem reads_string (units : List CodeUnit) : Reads (quote units) (.string units) :=
  reads_spelled (readUnits_quoted units)

theorem reads_of_readNumber {number : Number}
    (start : ∃ first others, text = first :: others ∧ (first.isDigit = true ∨ first = '-'))
    (read : ∀ rest, EndsNumber rest → readNumber (text ++ rest) = some (number, rest)) :
    Reads text (.number number) := by
  obtain ⟨first, others, rfl, shape⟩ := start
  have different {mark : Char} (no_digit : mark.isDigit = false) (no_sign : mark ≠ '-') :
      first ≠ mark := by
    rintro rfl
    rcases shape with digit | sign
    · simp [digit] at no_digit
    · exact no_sign sign
  have visible : isBlank first = false := by
    simp [isBlank, different]
  refine reads_of_step (List.cons_ne_nil _ _) fun fuel rest _ ends => ?_
  have read := read rest ends
  have starts : skipBlank (first :: others ++ rest) = first :: (others ++ rest) := by
    simp [skipBlank, visible]
  rw [List.cons_append] at read
  rw [readValue, starts]
  split
  case h_7 =>
    rw [read]
    rfl
  all_goals
    next same => exact absurd (List.cons.inj same).1 (different (by decide) (by decide))

theorem reads_number (number : Number) : Reads number.render (.number number) :=
  reads_of_readNumber (exists_render_eq_cons number) fun _ ends => readNumber_render number ends

/-! ### Arrays -/

theorem skipBlank_skipBlank (text : List Char) : skipBlank (skipBlank text) = skipBlank text :=
  List.dropWhile_idempotent isBlank text

theorem readItems_skipBlank (fuel : Nat) (text : List Char) :
    readItems fuel (skipBlank text) = readItems fuel text := by
  cases fuel with
  | zero => rfl
  | succ fuel =>
    have same : readValue fuel (skipBlank text) = readValue fuel text := by
      cases fuel with
      | zero => rfl
      | succ fuel => rw [readValue, readValue, skipBlank_skipBlank]
    rw [readItems, readItems, same]

/-- No item starts with a bracket that closes an array. -/
theorem readItems_bracket (closes : skipBlank text = ']' :: rest) (fuel : Nat) :
    readItems fuel text = none := by
  cases fuel with
  | zero => rfl
  | succ fuel =>
    have none : readValue fuel text = none := by
      cases fuel with
      | zero => rfl
      | succ fuel =>
        rw [readValue, closes]
        rfl
    rw [readItems, none]
    rfl

theorem readValue_bracket {items : List Value} (read : readItems fuel text = some (items, rest)) :
    readValue (fuel + 1) ('[' :: text) = some (.array items, rest) := by
  have start : skipBlank ('[' :: text) = '[' :: text := rfl
  rw [readValue, start]
  simp only
  split
  next closes => simp [readItems_bracket closes] at read
  next =>
    rw [readItems_skipBlank, read]
    rfl

theorem reads_items {items : List Value} (reads : ReadsItems text items) :
    Reads ('[' :: (text ++ [']'])) (.array items) := by
  refine reads_of_step (List.cons_ne_nil _ _) fun fuel rest enough _ => ?_
  simp only [List.length_cons, List.length_append] at enough
  simpa using readValue_bracket (reads fuel rest (by omega))

theorem ReadsItems.last (reads : Reads text value) (blank : ∀ char ∈ blanks, isBlank char = true) :
    ReadsItems (text ++ blanks) [value] := by
  intro fuel rest enough
  obtain ⟨fuel, rfl⟩ : ∃ less, fuel = less + 1 := Nat.exists_eq_add_one.mpr (by omega)
  have ends : EndsNumber (blanks ++ ']' :: rest) :=
    endsNumber_append blank (by simp [EndsNumber])
  have closing : skipBlank (blanks ++ ']' :: rest) = ']' :: rest := skipBlank_append blank _
  rw [List.length_append] at enough
  rw [List.append_assoc, readItems, reads fuel _ (by omega) ends]
  simp [closing]

theorem ReadsItems.next {items : List Value} {others : List Char} (reads : Reads text value)
    (blank : ∀ char ∈ blanks, isBlank char = true) (later : ReadsItems others items) :
    ReadsItems (text ++ (blanks ++ ',' :: others)) (value :: items) := by
  intro fuel rest enough
  obtain ⟨fuel, rfl⟩ : ∃ less, fuel = less + 1 := Nat.exists_eq_add_one.mpr (by omega)
  have ends : EndsNumber (blanks ++ ',' :: (others ++ ']' :: rest)) :=
    endsNumber_append blank (by simp [EndsNumber])
  have comma : skipBlank (blanks ++ ',' :: (others ++ ']' :: rest)) =
      ',' :: (others ++ ']' :: rest) := skipBlank_append blank _
  simp only [List.length_append, List.length_cons] at enough
  rw [List.append_assoc, List.append_assoc, List.cons_append, readItems,
    reads fuel _ (by omega) ends]
  simp [comma, later fuel rest (by omega)]

theorem readsItems_intercalate {texts : List (List Char)} {items : List Value}
    (reads : List.Forall₂ Reads texts items) (some_item : items ≠ [])
    (blank : ∀ char ∈ blanks, isBlank char = true) :
    ReadsItems ([','].intercalate texts ++ blanks) items := by
  induction reads with
  | nil => contradiction
  | cons first others ih =>
    cases others with
    | nil =>
      rw [List.intercalate_singleton]
      exact .last first blank
    | cons second others =>
      rw [List.intercalate_cons_cons, List.append_assoc, List.append_assoc]
      exact .next first (List.forall_mem_nil _) (ih (List.cons_ne_nil _ _))

theorem reads_array {texts : List (List Char)} {items : List Value}
    (reads : List.Forall₂ Reads texts items) (blank : ∀ char ∈ blanks, isBlank char = true) :
    Reads ('[' :: ([','].intercalate texts ++ (blanks ++ [']']))) (.array items) := by
  cases reads with
  | nil =>
    refine reads_of_step (List.cons_ne_nil _ _) fun fuel rest _ _ => ?_
    have start (text : List Char) : skipBlank ('[' :: text) = '[' :: text := rfl
    have closes : skipBlank (blanks ++ ']' :: rest) = ']' :: rest := skipBlank_append blank _
    simp [start, closes]
  | cons first others =>
    rw [← List.append_assoc]
    exact reads_items (readsItems_intercalate (.cons first others) (List.cons_ne_nil _ _) blank)

/-! ### Objects -/

theorem readName_spelled {after inside : List Char} {name : List CodeUnit}
    (blank : ∀ char ∈ blanks, isBlank char = true)
    (read : ∀ rest, readUnits (inside ++ '"' :: rest) = some (name, rest))
    (after_blank : ∀ char ∈ after, isBlank char = true) (rest : List Char) :
    readName (blanks ++ '"' :: (inside ++ '"' :: (after ++ ':' :: rest))) = some (name, rest) := by
  have start (text : List Char) : skipBlank (blanks ++ '"' :: text) = '"' :: text :=
    skipBlank_append blank _
  have colon : skipBlank (after ++ ':' :: rest) = ':' :: rest := skipBlank_append after_blank _
  rw [readName, start]
  simp [read, colon]

theorem readName_quote (name : List CodeUnit) (rest : List Char) :
    readName (quote name ++ [':'] ++ rest) = some (name, rest) := by
  have read := readName_spelled (List.forall_mem_nil _) (readUnits_quoted name)
    (List.forall_mem_nil _) rest
  simpa [quote] using read

theorem readMembers_skipBlank (fuel : Nat) (text : List Char) :
    readMembers fuel (skipBlank text) = readMembers fuel text := by
  cases fuel with
  | zero => rfl
  | succ fuel => rw [readMembers, readMembers, readName, readName, skipBlank_skipBlank]

/-- No member starts with a brace that closes an object. -/
theorem readMembers_brace (closes : skipBlank text = '\x7d' :: rest) (fuel : Nat) :
    readMembers fuel text = none := by
  cases fuel with
  | zero => rfl
  | succ fuel =>
    rw [readMembers, readName, closes]
    rfl

theorem readValue_brace {members : List (List CodeUnit × Value)}
    (read : readMembers fuel text = some (members, rest)) :
    readValue (fuel + 1) ('\x7b' :: text) = some (.object members, rest) := by
  have start : skipBlank ('\x7b' :: text) = '\x7b' :: text := rfl
  rw [readValue, start]
  simp only
  split
  next closes => simp [readMembers_brace closes] at read
  next =>
    rw [readMembers_skipBlank, read]
    rfl

theorem reads_members {members : List (List CodeUnit × Value)}
    (reads : ReadsMembers text members) :
    Reads ('\x7b' :: (text ++ ['\x7d'])) (.object members) := by
  refine reads_of_step (List.cons_ne_nil _ _) fun fuel rest enough _ => ?_
  simp only [List.length_cons, List.length_append] at enough
  simpa using readValue_brace (reads fuel rest (by omega))

variable {member : List CodeUnit × Value}

theorem ReadsMembers.last (reads : ReadsMember text member)
    (blank : ∀ char ∈ blanks, isBlank char = true) : ReadsMembers (text ++ blanks) [member] := by
  intro fuel rest enough
  obtain ⟨fuel, rfl⟩ : ∃ less, fuel = less + 1 := Nat.exists_eq_add_one.mpr (by omega)
  obtain ⟨front, shown, name, value, rfl⟩ := reads
  have ends : EndsNumber (blanks ++ '\x7d' :: rest) :=
    endsNumber_append blank (by simp [EndsNumber])
  have closing : skipBlank (blanks ++ '\x7d' :: rest) = '\x7d' :: rest :=
    skipBlank_append blank _
  simp only [List.length_append] at enough
  rw [List.append_assoc, List.append_assoc, readMembers, name, Option.bind_eq_bind,
    Option.bind_some]
  simp [value fuel _ (by omega) ends, closing]

theorem ReadsMembers.next {members : List (List CodeUnit × Value)} {others : List Char}
    (reads : ReadsMember text member) (blank : ∀ char ∈ blanks, isBlank char = true)
    (later : ReadsMembers others members) :
    ReadsMembers (text ++ (blanks ++ ',' :: others)) (member :: members) := by
  intro fuel rest enough
  obtain ⟨fuel, rfl⟩ : ∃ less, fuel = less + 1 := Nat.exists_eq_add_one.mpr (by omega)
  obtain ⟨front, shown, name, value, rfl⟩ := reads
  have ends : EndsNumber (blanks ++ ',' :: (others ++ '\x7d' :: rest)) :=
    endsNumber_append blank (by simp [EndsNumber])
  have comma : skipBlank (blanks ++ ',' :: (others ++ '\x7d' :: rest)) =
      ',' :: (others ++ '\x7d' :: rest) := skipBlank_append blank _
  simp only [List.length_append, List.length_cons] at enough
  rw [List.append_assoc, List.append_assoc, List.append_assoc, List.cons_append, readMembers, name,
    Option.bind_eq_bind, Option.bind_some]
  simp [value fuel _ (by omega) ends, comma, later fuel rest (by omega)]

theorem readsMembers_intercalate {texts : List (List Char)}
    {members : List (List CodeUnit × Value)} (reads : List.Forall₂ ReadsMember texts members)
    (some_member : members ≠ []) (blank : ∀ char ∈ blanks, isBlank char = true) :
    ReadsMembers ([','].intercalate texts ++ blanks) members := by
  induction reads with
  | nil => contradiction
  | cons first others ih =>
    cases others with
    | nil =>
      rw [List.intercalate_singleton]
      exact .last first blank
    | cons second others =>
      rw [List.intercalate_cons_cons, List.append_assoc, List.append_assoc]
      exact .next first (List.forall_mem_nil _) (ih (List.cons_ne_nil _ _))

theorem reads_object {texts : List (List Char)} {members : List (List CodeUnit × Value)}
    (reads : List.Forall₂ ReadsMember texts members)
    (blank : ∀ char ∈ blanks, isBlank char = true) :
    Reads ('\x7b' :: ([','].intercalate texts ++ (blanks ++ ['\x7d']))) (.object members) := by
  cases reads with
  | nil =>
    refine reads_of_step (List.cons_ne_nil _ _) fun fuel rest _ _ => ?_
    have start (text : List Char) : skipBlank ('\x7b' :: text) = '\x7b' :: text := rfl
    have closes : skipBlank (blanks ++ '\x7d' :: rest) = '\x7d' :: rest :=
      skipBlank_append blank _
    simp [start, closes]
  | cons first others =>
    rw [← List.append_assoc]
    exact reads_members
      (readsMembers_intercalate (.cons first others) (List.cons_ne_nil _ _) blank)

/-! ### The indented layout -/

theorem isBlank_newLine (level : Nat) :
    ∀ char ∈ (Value.newLine level).toList, isBlank char = true := by
  intro char member
  simp only [Value.newLine, String.toList_ofList, List.mem_cons, List.mem_replicate] at member
  rcases member with rfl | ⟨_, rfl⟩
  all_goals rfl

/-- What stands after each comma can be counted to the part after it. -/
theorem append_intercalate (front first : List Char) (others : List (List Char)) :
    front ++ (',' :: front).intercalate (first :: others) =
      [','].intercalate ((first :: others).map (front ++ ·)) := by
  induction others generalizing first with
  | nil => simp
  | cons second others ih =>
    rw [List.map_cons, List.map_cons, List.intercalate_cons_cons, List.intercalate_cons_cons,
      ← List.map_cons, ← ih second]
    simp

theorem toList_enclose (level : Nat) (opening closing : String) {parts : List String}
    (some_part : parts ≠ []) : (Value.enclose level opening closing parts).toList =
      opening.toList ++ ([','].intercalate ((parts.map String.toList).map fun part =>
        (Value.newLine (level + 1)).toList ++ part) ++
        ((Value.newLine level).toList ++ closing.toList)) := by
  cases parts with
  | nil => contradiction
  | cons first others =>
    rw [List.map_cons, ← append_intercalate]
    simp [Value.enclose]

theorem reads_encloseItems (level : Nat) {parts : List String} {items : List Value}
    (reads : List.Forall₂ (fun (text : String) item => Reads text.toList item) parts items) :
    Reads (Value.enclose level "[" "]" parts).toList (.array items) := by
  have blank := isBlank_newLine
  have all := List.forall₂_map_left_iff.mpr <| List.forall₂_map_left_iff.mpr <|
    reads.imp fun _ _ part => part.append (blank (level + 1))
  cases reads with
  | nil =>
    have text : (Value.enclose level "[" "]" []).toList = ['[', ']'] := by simp [Value.enclose]
    rw [text]
    exact reads_array .nil (List.forall_mem_nil _)
  | cons first others =>
    rw [toList_enclose level "[" "]" (List.cons_ne_nil _ _)]
    exact reads_array all (blank level)

theorem ReadsMember.append (blank : ∀ char ∈ blanks, isBlank char = true)
    (reads : ReadsMember text member) : ReadsMember (blanks ++ text) member := by
  obtain ⟨front, shown, name, value, rfl⟩ := reads
  refine ⟨blanks ++ front, shown, fun rest => ?_, value, by simp⟩
  rw [← name rest, readName, readName, List.append_assoc, skipBlank_append blank]

theorem reads_encloseMembers (level : Nat) {parts : List String}
    {members : List (List CodeUnit × Value)}
    (reads : List.Forall₂ (fun (text : String) member => ReadsMember text.toList member) parts
      members) : Reads (Value.enclose level openBrace closeBrace parts).toList (.object members) := by
  have blank := isBlank_newLine
  have all := List.forall₂_map_left_iff.mpr <| List.forall₂_map_left_iff.mpr <|
    reads.imp fun _ _ part => part.append (blank (level + 1))
  have opening : openBrace.toList = ['\x7b'] := by decide
  have closing : closeBrace.toList = ['\x7d'] := by decide
  cases reads with
  | nil =>
    have text : (Value.enclose level openBrace closeBrace []).toList = ['\x7b', '\x7d'] := by
      simp [Value.enclose, opening, closing]
    rw [text]
    exact reads_object .nil (List.forall_mem_nil _)
  | cons first others =>
    rw [toList_enclose level openBrace closeBrace (List.cons_ne_nil _ _), opening, closing]
    exact reads_object all (blank level)

mutual

theorem reads_indented (level : Nat) : (value : Value) → Reads (value.indented level).toList value
  | .null => reads_null
  | .bool true => reads_true
  | .bool false => reads_false
  | .number number => by
    rw [Value.indented, String.toList_ofList]
    exact reads_number number
  | .string units => by
    rw [Value.indented, Value.quoted, String.toList_ofList]
    exact reads_string units
  | .array items => by
    rw [Value.indented]
    exact reads_encloseItems level (forall_indentedItems (level + 1) items)
  | .object members => by
    rw [Value.indented]
    exact reads_encloseMembers level (forall_indentedMembers (level + 1) members)

theorem forall_indentedItems (level : Nat) : (items : List Value) →
    List.Forall₂ (fun (text : String) item => Reads text.toList item)
      (Value.indentedItems level items) items
  | [] => .nil
  | item :: items => .cons (reads_indented level item) (forall_indentedItems level items)

theorem forall_indentedMembers (level : Nat) : (members : List (List CodeUnit × Value)) →
    List.Forall₂ (fun (text : String) member => ReadsMember text.toList member)
      (Value.indentedMembers level members) members
  | [] => .nil
  | (name, value) :: members => by
    have shown := (reads_indented level value).append (by simp [isBlank] : ∀ char ∈ [' '], _)
    have first : ReadsMember (Value.quoted name ++ ": " ++ value.indented level).toList
        (name, value) :=
      ⟨_, _, readName_quote name, shown, by simp [Value.quoted]⟩
    exact .cons first (forall_indentedMembers level members)

end

/-! ### The compact layout -/

mutual

theorem reads_compact : (value : Value) → Reads value.compact.toList value
  | .null => reads_null
  | .bool true => reads_true
  | .bool false => reads_false
  | .number number => by
    rw [Value.compact, String.toList_ofList]
    exact reads_number number
  | .string units => by
    rw [Value.compact, Value.quoted, String.toList_ofList]
    exact reads_string units
  | .array items => by
    have all := List.forall₂_map_left_iff.mpr (forall_compactItems items)
    have text : (Value.array items).compact.toList =
        '[' :: ([','].intercalate ((Value.compactItems items).map String.toList) ++ [']']) := by
      simp [Value.compact]
    rw [text]
    exact reads_array all (List.forall_mem_nil _)
  | .object members => by
    have all := List.forall₂_map_left_iff.mpr (forall_compactMembers members)
    have opening : openBrace.toList = ['\x7b'] := by decide
    have closing : closeBrace.toList = ['\x7d'] := by decide
    have text : (Value.object members).compact.toList = '\x7b' ::
        ([','].intercalate ((Value.compactMembers members).map String.toList) ++ ['\x7d']) := by
      simp [Value.compact, opening, closing]
    rw [text]
    exact reads_object all (List.forall_mem_nil _)

theorem forall_compactItems : (items : List Value) →
    List.Forall₂ (fun (text : String) item => Reads text.toList item)
      (Value.compactItems items) items
  | [] => .nil
  | item :: items => .cons (reads_compact item) (forall_compactItems items)

theorem forall_compactMembers : (members : List (List CodeUnit × Value)) →
    List.Forall₂ (fun (text : String) member => ReadsMember text.toList member)
      (Value.compactMembers members) members
  | [] => .nil
  | (name, value) :: members => by
    have first : ReadsMember (Value.quoted name ++ ":" ++ value.compact).toList (name, value) :=
      ⟨_, _, readName_quote name, reads_compact value, by simp [Value.quoted]⟩
    exact .cons first (forall_compactMembers members)

end

/-! ### Whole texts -/

/-- A readable text is the text of its value, white space after it or not. -/
theorem Reads.parse?_append {text blank : String} (reads : Reads text.toList value)
    (blanks : ∀ char ∈ blank.toList, isBlank char = true) :
    parse? (text ++ blank) = some value := by
  have ends : EndsNumber blank.toList := by
    simpa using endsNumber_append blanks (by simp [EndsNumber] : EndsNumber [])
  have skipped : skipBlank blank.toList = [] := List.dropWhile_eq_nil_iff.mpr blanks
  have read := reads (2 * (text ++ blank).toList.length + 2) blank.toList (by simp; omega) ends
  rw [← String.toList_append] at read
  simp only [parse?, read, skipped]
  rfl

/-- A value reads back from its indented text, white space after it or not. -/
theorem parse?_indented (value : Value) {blank : String}
    (blanks : ∀ char ∈ blank.toList, isBlank char = true) :
    parse? (value.indented 0 ++ blank) = some value :=
  (reads_indented 0 value).parse?_append blanks

/-- A value reads back from its compact text. -/
theorem parse?_compact (value : Value) : parse? value.compact = some value := by
  have none : ∀ char ∈ "".toList, isBlank char = true := List.forall_mem_nil _
  simpa using (reads_compact value).parse?_append none

end GoldenCircuit.Json
