import GoldenCircuit.Json.Literal
import GoldenCircuit.Proofs.Text.Hexadecimal

/-! JSON literals read back, whatever follows them: every string, with all its escapes, and every
number. -/
namespace GoldenCircuit.Json

/-! ### Strings -/

theorem readUnits_codeEscape {first second third fourth : Char} {code : Nat}
    (named : hexCode? first second third fourth = some code) (rest : List Char) :
    readUnits ('\\' :: 'u' :: first :: second :: third :: fourth :: rest) =
      (readUnits rest).map fun read => (unitOfCode code :: read.1, read.2) := by
  simp only [readUnits, named]
  cases readUnits rest <;> rfl

theorem readUnits_hexEscape {code : Nat} (bound : code < 0x10000) (rest : List Char) :
    readUnits (hexEscape code ++ rest) =
      (readUnits rest).map fun read => (unitOfCode code :: read.1, read.2) := by
  have digit (place : Nat) : hexValue? (hexDigit (place % 16)) = some (place % 16) :=
    Text.hexValue?_digitChar _ (Nat.mod_lt _ (by decide))
  have sum : (code / 4096 % 16 * 16 + code / 256 % 16) * 256 +
      (code / 16 % 16 * 16 + code % 16) = code := by
    omega
  refine readUnits_codeEscape ?_ rest
  simp only [hexCode?, digit, bind, Option.bind, pure, sum]

theorem readUnits_shortEscape {letter char : Char} (named : shortEscape? letter = some char)
    (rest : List Char) : readUnits ('\\' :: letter :: rest) =
      (readUnits rest).map fun read => (.char char :: read.1, read.2) := by
  have other : letter ≠ 'u' := by
    rintro rfl
    contradiction
  rw [readUnits.eq_4 _ _ (fun _ _ _ _ _ same => absurd same other), named]
  cases readUnits rest <;> rfl

theorem readUnits_plain {char : Char} (quote : char ≠ '"') (backslash : char ≠ '\\')
    (printable : ¬char.toNat < 0x20) (rest : List Char) : readUnits (char :: rest) =
      (readUnits rest).map fun read => (.char char :: read.1, read.2) := by
  rw [readUnits.eq_5 _ _ quote (fun _ _ _ _ _ same => absurd same backslash)
    (fun _ _ same => absurd same backslash), if_neg (by simp [printable, backslash])]
  cases readUnits rest <;> rfl

theorem readUnits_escape (unit : CodeUnit) (rest : List Char) :
    readUnits (escape unit ++ rest) =
      (readUnits rest).map fun read => (unit :: read.1, read.2) := by
  unfold escape
  split
  case h_8 char quote backslash _ _ _ _ _ =>
    split
    next control =>
      have named : unitOfCode char.toNat = .char char := by
        rw [unitOfCode, if_neg (by omega), if_neg (by omega), Char.ofNat_toNat]
      rw [readUnits_hexEscape (by omega), named]
    next printable =>
      exact readUnits_plain quote backslash printable rest
  case h_9 bits =>
    have named : unitOfCode (0xD800 + bits.val) = .high bits := by
      rw [unitOfCode, if_pos (by omega), Nat.add_sub_cancel_left, Fin.ofNat_val_eq_self]
    rw [readUnits_hexEscape (by omega), named]
  case h_10 bits =>
    have named : unitOfCode (0xDC00 + bits.val) = .low bits := by
      rw [unitOfCode, if_neg (by omega), if_pos (by omega), Nat.add_sub_cancel_left,
        Fin.ofNat_val_eq_self]
    rw [readUnits_hexEscape (by omega), named]
  all_goals exact readUnits_shortEscape rfl rest

theorem readUnits_quoted (units : List CodeUnit) (rest : List Char) :
    readUnits (units.flatMap escape ++ '"' :: rest) = some (units, rest) := by
  induction units with
  | nil => rfl
  | cons unit units ih =>
    rw [List.flatMap_cons, List.append_assoc, readUnits_escape, ih]
    rfl

/-! ### Numbers -/

/-- A text that does not start with a character that would go on with a number before it. -/
def EndsNumber (text : List Char) : Prop :=
  ∀ next ∈ text.head?, next.isDigit = false ∧ next ≠ '.' ∧ next ≠ 'e' ∧ next ≠ 'E'

theorem readDigits_append {digits rest : List Char} (some_digit : digits ≠ [])
    (all : ∀ digit ∈ digits, digit.isDigit = true)
    (ends : ∀ next ∈ rest.head?, next.isDigit = false) :
    readDigits (digits ++ rest) = some (digits, rest) := by
  have stops : rest.takeWhile Char.isDigit = [] ∧ rest.dropWhile Char.isDigit = rest := by
    cases rest with
    | nil => exact ⟨rfl, rfl⟩
    | cons next rest => simp [ends next rfl]
  rw [readDigits, List.takeWhile_append_of_pos all, List.dropWhile_append_of_pos all, stops.1,
    stops.2, List.append_nil]
  simp [some_digit]

theorem readDigits_digits (value : Nat) {rest : List Char}
    (ends : ∀ next ∈ rest.head?, next.isDigit = false) :
    readDigits (digits value ++ rest) = some (digits value, rest) :=
  readDigits_append Nat.toDigits_ne_nil
    (fun _ member => Nat.isDigit_of_mem_toDigits (by decide) (by decide) member) ends

theorem exists_digits_eq_cons (value : Nat) :
    ∃ first others, digits value = first :: others ∧ first.isDigit = true := by
  obtain ⟨first, others, found⟩ := List.exists_cons_of_ne_nil (@Nat.toDigits_ne_nil value 10)
  have member : first ∈ Nat.toDigits 10 value := found ▸ List.mem_cons_self
  exact ⟨first, others, found, Nat.isDigit_of_mem_toDigits (by decide) (by decide) member⟩

theorem digits_append_ne_cons (value : Nat) (rest : List Char) {mark : Char}
    (other : mark.isDigit = false) (text : List Char) : digits value ++ rest ≠ mark :: text := by
  obtain ⟨first, others, found, digit⟩ := exists_digits_eq_cons value
  intro same
  rw [found, List.cons_append, List.cons.injEq] at same
  simp [← same.1, digit] at other

theorem readWhole_digits (value : Nat) {rest : List Char}
    (ends : ∀ next ∈ rest.head?, next.isDigit = false) :
    readWhole (digits value ++ rest) = some (value, rest) := by
  have canonical : ¬((digits value).head? = some '0' ∧ digits value ≠ ['0']) := by
    rintro ⟨zero, several⟩
    have positive : 0 < value := by
      apply Nat.pos_of_ne_zero
      rintro rfl
      exact several rfl
    exact Text.head?_toDigits_ne (by decide) positive zero
  rw [readWhole, readDigits_digits value ends]
  apply (if_neg canonical).trans
  rw [digits, Text.digitsFrom_toDigits]
  rfl

/-- The digits after the point, and the point, unless there are none. -/
def fractionText (fraction : List (Fin 10)) : List Char :=
  if fraction.isEmpty then [] else '.' :: fraction.map fun digit => Nat.digitChar digit.val

def exponentText : Option Int → List Char
  | none => []
  | some (.ofNat size) => 'e' :: digits size
  | some (.negSucc size) => 'e' :: '-' :: digits (size + 1)

theorem readFraction_fractionText (fraction : List (Fin 10)) {rest : List Char}
    (ends : ∀ next ∈ rest.head?, next.isDigit = false ∧ next ≠ '.') :
    readFraction (fractionText fraction ++ rest) = some (fraction, rest) := by
  have value : ∀ digit : Fin 10,
      Fin.ofNat 10 ((Nat.digitChar digit.val).toNat - '0'.toNat) = digit := by
    decide
  have isDigit : ∀ digit : Fin 10, (Nat.digitChar digit.val).isDigit = true := by
    decide
  rw [fractionText]
  split
  next none =>
    rw [List.isEmpty_iff.mp none, List.nil_append]
    cases rest with
    | nil => rfl
    | cons next rest =>
      rw [readFraction.eq_2 _ fun _ same => (ends next rfl).2 (List.cons.inj same).1]
  next many =>
    have some_digit : fraction.map (fun digit => Nat.digitChar digit.val) ≠ [] := by
      simpa using many
    have all : ∀ digit ∈ fraction.map (fun digit => Nat.digitChar digit.val),
        digit.isDigit = true := by
      simp [isDigit]
    have back : (fraction.map fun digit => Nat.digitChar digit.val).map (fun digit =>
        Fin.ofNat 10 (digit.toNat - '0'.toNat)) = fraction := by
      rw [List.map_map]
      exact (List.map_congr_left fun digit _ => value digit).trans (List.map_id fraction)
    rw [List.cons_append, readFraction,
      readDigits_append some_digit all fun next among => (ends next among).1]
    exact congrArg (fun digits => some (digits, rest)) back

theorem readSigned_digits (size : Nat) {rest : List Char}
    (ends : ∀ next ∈ rest.head?, next.isDigit = false) :
    readSigned (digits size ++ rest) = some ((size : Int), rest) := by
  rw [readSigned.eq_3 _ (digits_append_ne_cons size rest (by decide))
    (digits_append_ne_cons size rest (by decide)), readDigits_digits size ends]
  simp [digits, Text.digitsFrom_toDigits]

theorem readExponent_exponentText (exponent : Option Int) {rest : List Char}
    (ends : EndsNumber rest) :
    readExponent (exponentText exponent ++ rest) = some (exponent, rest) := by
  have no_digit : ∀ next ∈ rest.head?, next.isDigit = false :=
    fun next among => (ends next among).1
  match exponent with
  | none =>
    rw [exponentText, List.nil_append]
    cases rest with
    | nil => rfl
    | cons next rest =>
      obtain ⟨_, _, lower, upper⟩ := ends next rfl
      rw [readExponent.eq_3 _ (fun _ same => lower (List.cons.inj same).1)
        (fun _ same => upper (List.cons.inj same).1)]
  | some (.ofNat size) =>
    rw [exponentText, List.cons_append, readExponent, readSigned_digits size no_digit]
    rfl
  | some (.negSucc size) =>
    rw [exponentText, List.cons_append, List.cons_append, readExponent, readSigned,
      readDigits_digits (size + 1) no_digit]
    simp only [Option.bind_eq_bind, Option.bind_some, digits, Text.digitsFrom_toDigits]
    rfl

/-- A number reads back, whatever way its exponent is written, if there is one. -/
theorem readNumber_append (negative : Bool) (whole : Nat) (fraction : List (Fin 10))
    {exponent : Option Int} {shown rest : List Char}
    (read : readExponent (shown ++ rest) = some (exponent, rest))
    (after_fraction : ∀ next ∈ (shown ++ rest).head?, next.isDigit = false ∧ next ≠ '.') :
    readNumber ((if negative then ['-'] else []) ++ (digits whole ++ (fractionText fraction ++
      (shown ++ rest)))) = some (⟨negative, whole, fraction, exponent⟩, rest) := by
  have after_whole : ∀ next ∈ (fractionText fraction ++ (shown ++ rest)).head?,
      next.isDigit = false := by
    rw [fractionText]
    split
    next => exact fun next among => (after_fraction next among).1
    next => simp
  have unsigned : readUnsigned negative (digits whole ++ (fractionText fraction ++
      (shown ++ rest))) = some (⟨negative, whole, fraction, exponent⟩, rest) := by
    rw [readUnsigned, readWhole_digits whole after_whole]
    simp [readFraction_fractionText fraction after_fraction, read]
  cases negative with
  | true =>
    rw [if_pos rfl, List.singleton_append, readNumber, unsigned]
  | false =>
    rw [if_neg Bool.false_ne_true, List.nil_append,
      readNumber.eq_2 _ (digits_append_ne_cons whole _ (by decide)), unsigned]

/-- A number that is not followed by what would go on with it reads back. -/
theorem readNumber_render (number : Number) {rest : List Char} (ends : EndsNumber rest) :
    readNumber (number.render ++ rest) = some (number, rest) := by
  obtain ⟨negative, whole, fraction, exponent⟩ := number
  have after_fraction : ∀ next ∈ (exponentText exponent ++ rest).head?,
      next.isDigit = false ∧ next ≠ '.' := by
    match exponent with
    | none => exact fun next among => ⟨(ends next among).1, (ends next among).2.1⟩
    | some (.ofNat size) | some (.negSucc size) => simp [exponentText]
  have text : Number.render ⟨negative, whole, fraction, exponent⟩ ++ rest =
      (if negative then ['-'] else []) ++ (digits whole ++ (fractionText fraction ++
        (exponentText exponent ++ rest))) := by
    unfold Number.render fractionText
    match exponent with
    | none | some (.ofNat _) | some (.negSucc _) => simp [exponentText]
  rw [text]
  exact readNumber_append negative whole fraction (readExponent_exponentText exponent ends)
    after_fraction

theorem exists_signed_eq_cons (negative : Bool) (whole : Nat) (rest : List Char) :
    ∃ first others, (if negative then ['-'] else []) ++ (digits whole ++ rest) = first :: others ∧
      (first.isDigit = true ∨ first = '-') := by
  cases negative with
  | true =>
    simp
  | false =>
    obtain ⟨first, others, found, digit⟩ := exists_digits_eq_cons whole
    simp [found, digit]

theorem exists_render_eq_cons (number : Number) :
    ∃ first others, number.render = first :: others ∧ (first.isDigit = true ∨ first = '-') := by
  simp only [Number.render, List.append_assoc]
  exact exists_signed_eq_cons number.negative number.whole _

end GoldenCircuit.Json
