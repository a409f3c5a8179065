import GoldenCircuit.Text.Numeral
import GoldenCircuit.Proofs.Text.Words
import GoldenCircuit.Proofs.Word

/-! Written numerals. Splitting a number in the middle gives the digits that dividing by the base
gives, so what is written can be read one digit at a time. -/
namespace GoldenCircuit.Text

variable {base value : Nat}

/-- The last digits of a number, so many of them. -/
def lastDigits (base : Nat) : (count value : Nat) → List Char
  | 0, _ => []
  | count + 1, value => lastDigits base count (value / base) ++ [Nat.digitChar (value % base)]

theorem lastDigits_add (base more few value : Nat) :
    lastDigits base (more + few) value =
      lastDigits base more (value / base ^ few) ++ lastDigits base few (value % base ^ few) := by
  induction few generalizing value with
  | zero => simp only [Nat.add_zero, Nat.pow_zero, Nat.div_one, lastDigits, List.append_nil]
  | succ few ih =>
    have high : value / base / base ^ few = value / base ^ (few + 1) := by
      rw [Nat.div_div_eq_div_mul, Nat.pow_succ']
    have low : value % base ^ (few + 1) / base = value / base % base ^ few := by
      rw [Nat.pow_succ', Nat.mod_mul_right_div_self]
    have last : value % base ^ (few + 1) % base = value % base := by
      rw [Nat.pow_succ', Nat.mod_mul_right_mod]
    rw [← Nat.add_assoc, lastDigits, ih, lastDigits, high, low, last, List.append_assoc]

/-- Moduli that split a number into so many digits to a base. -/
def Splits (base : Nat) : (moduli : List Nat) → (count : Nat) → Prop
  | [], count => count = 1
  | modulus :: moduli, count =>
    ∃ half, count = half + half ∧ modulus = base ^ half ∧ Splits base moduli half

theorem Splits.pos {moduli : List Nat} {count : Nat} (splits : Splits base moduli count) :
    0 < count := by
  induction moduli generalizing count with
  | nil =>
    rw [splits]
    exact Nat.one_pos
  | cons modulus moduli ih =>
    obtain ⟨half, rfl, _, splits⟩ := splits
    exact Nat.add_pos_left (ih splits) _

theorem splitDigits_eq {moduli : List Nat} {count : Nat} (splits : Splits base moduli count)
    (bound : value < base ^ count) (following : List Char) :
    splitDigits moduli value following = lastDigits base count value ++ following := by
  induction moduli generalizing count value following with
  | nil =>
    cases splits
    rw [Nat.pow_one] at bound
    rw [splitDigits, lastDigits, lastDigits, Nat.mod_eq_of_lt bound]
    rfl
  | cons modulus moduli ih =>
    obtain ⟨half, rfl, rfl, splits⟩ := splits
    have positive : 0 < base ^ half := by
      apply Nat.pos_of_ne_zero
      intro none
      rw [Nat.pow_add, none] at bound
      contradiction
    have high : value / base ^ half < base ^ half := by
      apply Nat.div_lt_of_lt_mul
      rwa [← Nat.pow_add]
    rw [splitDigits, ih splits (Nat.mod_lt _ positive), ih splits high, lastDigits_add,
      List.append_assoc]

/-- The repeated squares split the number: the last of them that was tried exceeds it. -/
theorem splits_squares {fuel half : Nat} {smaller : List Nat} (splits : Splits base smaller half)
    (enough : value < (base ^ half) ^ 2 ^ fuel) :
    ∃ count, Splits base (squares value fuel (base ^ half) smaller) count ∧
      value < base ^ count := by
  induction fuel generalizing half smaller with
  | zero =>
    rw [Nat.pow_zero, Nat.pow_one] at enough
    exact ⟨half, splits, enough⟩
  | succ fuel ih =>
    rw [squares]
    split
    next small => exact ⟨half, splits, small⟩
    next =>
      have square : base ^ half * base ^ half = base ^ (half + half) := (Nat.pow_add _ _ _).symm
      rw [square]
      have doubled : Splits base (base ^ half :: smaller) (half + half) :=
        ⟨half, rfl, rfl, splits⟩
      apply ih doubled
      rwa [← square, ← Nat.pow_two, ← Nat.pow_mul, ← Nat.pow_succ']

theorem significant_zeros {digits : List Char} (some_digit : digits ≠ []) (zeros : Nat) :
    significant (List.replicate zeros '0' ++ digits) = significant digits := by
  induction zeros with
  | zero => rfl
  | succ zeros ih =>
    obtain ⟨next, following, rest⟩ : ∃ next following,
        List.replicate zeros '0' ++ digits = next :: following :=
      List.exists_cons_of_ne_nil fun none => some_digit (List.append_eq_nil_iff.mp none).2
    rw [List.replicate_succ, List.cons_append, ← ih, rest, significant]

theorem head?_toDigits_ne (large : 1 < base) (positive : 0 < value) :
    (Nat.toDigits base value).head? ≠ some '0' := by
  induction value using Nat.strongRecOn with
  | ind value ih =>
    rw [Nat.toDigits_eq_if large]
    split
    next =>
      intro zero
      rw [List.head?_cons, Option.some.injEq, Nat.digitChar_eq_zero] at zero
      omega
    next many =>
      rw [List.head?_append, Option.or_of_isSome (List.isSome_head?.mpr Nat.toDigits_ne_nil)]
      exact ih _ (Nat.div_lt_self positive large) (Nat.div_pos (Nat.le_of_not_lt many) (by omega))

theorem significant_toDigits (large : 1 < base) (value : Nat) :
    significant (Nat.toDigits base value) = Nat.toDigits base value := by
  by_cases zero : value = 0
  · rw [zero, Nat.toDigits_zero]
    rfl
  · have head := head?_toDigits_ne large (Nat.pos_of_ne_zero zero)
    generalize Nat.toDigits base value = digits at head
    unfold significant
    split
    next => exact absurd rfl head
    next => rfl

/-- The last digits are all digits after leading zeros, if they are enough. -/
theorem lastDigits_eq (large : 1 < base) {count : Nat} (bound : value < base ^ (count + 1)) :
    ∃ zeros, lastDigits base (count + 1) value =
      List.replicate zeros '0' ++ Nat.toDigits base value := by
  induction count generalizing value with
  | zero =>
    rw [Nat.zero_add, Nat.pow_one] at bound
    refine ⟨0, ?_⟩
    rw [lastDigits, lastDigits, Nat.mod_eq_of_lt bound, Nat.toDigits_of_lt_base bound]
    rfl
  | succ count ih =>
    obtain ⟨zeros, earlier⟩ := ih (by
      apply Nat.div_lt_of_lt_mul
      rwa [← Nat.pow_succ'] : value / base < base ^ (count + 1))
    rw [lastDigits, earlier]
    by_cases few : value < base
    · refine ⟨zeros + 1, ?_⟩
      rw [Nat.div_eq_of_lt few, Nat.mod_eq_of_lt few, Nat.toDigits_of_lt_base few,
        Nat.toDigits_zero, List.replicate_succ']
    · refine ⟨zeros, ?_⟩
      rw [Nat.toDigits_of_base_le large (Nat.le_of_not_lt few), List.append_assoc]

/-- The digits are those that repeated division gives. -/
theorem digits_eq_toDigits (large : 1 < base) (value : Nat) :
    digits base value = Nat.toDigits base value := by
  have short : value < 2 ^ bitLength value := (bitLength_le_iff value _).mp (Nat.le_refl _)
  have enough : value < (base ^ 1) ^ 2 ^ bitLength value := calc
    value < 2 ^ bitLength value := short
    _ ≤ 2 ^ 2 ^ bitLength value :=
      Nat.pow_le_pow_right (by decide) (Nat.le_of_lt Nat.lt_two_pow_self)
    _ ≤ (base ^ 1) ^ 2 ^ bitLength value := by
      rw [Nat.pow_one]
      exact Nat.pow_le_pow_left large _
  obtain ⟨count, splits, bound⟩ := @splits_squares base value _ 1 [] rfl enough
  rw [Nat.pow_one] at splits
  obtain ⟨zeros, padded⟩ := lastDigits_eq large
    (by rwa [Nat.sub_add_cancel splits.pos] : value < base ^ (count - 1 + 1))
  rw [Nat.sub_add_cancel splits.pos] at padded
  rw [digits, splitDigits_eq splits bound, padded, List.append_nil,
    significant_zeros Nat.toDigits_ne_nil, significant_toDigits large]

theorem exists_of_mem_toDigits (large : 1 < base) {char : Char}
    (member : char ∈ Nat.toDigits base value) : ∃ digit < base, char = digit.digitChar := by
  induction value using Nat.strongRecOn with
  | ind value ih =>
    rw [Nat.toDigits_eq_if large] at member
    split at member
    next single => exact ⟨value, single, List.mem_singleton.mp member⟩
    next many =>
      rcases List.mem_append.mp member with high | last
      · exact ih _ (Nat.div_lt_self (by omega) large) high
      · exact ⟨value % base, Nat.mod_lt _ (by omega), List.mem_singleton.mp last⟩

theorem isBlank_digitChar : ∀ digit < 10, isBlank (Nat.digitChar digit) = false := by
  decide

theorem isWord_toString (value : Nat) : IsWord (toString value) := by
  have text : (toString value).toList = Nat.toDigits 10 value := Nat.toList_repr
  constructor
  · exact Nat.repr_ne_empty
  · rw [text, List.any_eq_false]
    intro char member
    obtain ⟨digit, within, rfl⟩ := exists_of_mem_toDigits (by decide) member
    exact Bool.eq_false_iff.mp (isBlank_digitChar digit within)

theorem isDigit_of_mem_toString {char : Char} (member : char ∈ (toString value).toList) :
    char.isDigit = true := by
  rw [show (toString value).toList = Nat.toDigits 10 value from Nat.toList_repr] at member
  exact Nat.isDigit_of_mem_toDigits (by decide) (by decide) member

theorem digitsFrom_toDigits (value : Nat) : digitsFrom 0 (Nat.toDigits 10 value) = value :=
  Nat.ofDigitChars_eq_foldl.symm.trans Nat.ofDigitChars_ten_toDigits

/-- A decimal numeral reads back as the number it was written for. -/
theorem natural?_toString (value : Nat) : natural? (toString value).toList = some value := by
  have text : (toString value).toList = Nat.toDigits 10 value := Nat.toList_repr
  have digit : (Nat.toDigits 10 value).all Char.isDigit = true :=
    List.all_eq_true.mpr fun char member => isDigit_of_mem_toString (text ▸ member)
  have nonempty : (Nat.toDigits 10 value).isEmpty = false := by
    rw [List.isEmpty_eq_false_iff]
    exact Nat.toDigits_ne_nil
  rw [text, natural?, digit, nonempty, digitsFrom_toDigits]
  rfl

/-- A numeral for a number that 64 bits hold: ASCII digits, at least one, with any number of zeros in
front. -/
structure Denotes (numeral : List Char) (number : Nat) : Prop where
  nonempty : numeral ≠ []
  digits : ∀ char ∈ numeral, char.isDigit = true
  value : Nat.ofDigitChars 10 numeral 0 = number
  small : number < 2 ^ 64

/-- Exactly the numerals are read, each as the number that it denotes. -/
theorem word?_eq_some_iff {numeral : List Char} {number : Nat} :
    word? numeral = some number ↔ Denotes numeral number := by
  have size : UInt64.size = 2 ^ 64 := rfl
  have value : digitsFrom 0 numeral = Nat.ofDigitChars 10 numeral 0 :=
    Nat.ofDigitChars_eq_foldl.symm
  rw [word?, Option.filter_eq_some_iff, natural?, value, decide_eq_true_eq, size]
  constructor
  · rintro ⟨read, small⟩
    split at read
    next shape =>
      rw [Bool.and_eq_true, List.all_eq_true] at shape
      exact ⟨by simpa using shape.1, shape.2, Option.some.inj read, small⟩
    next => contradiction
  · rintro ⟨nonempty, digits, rfl, small⟩
    have shape : (!numeral.isEmpty && numeral.all Char.isDigit) = true := by
      rw [Bool.and_eq_true, List.all_eq_true]
      exact ⟨by simpa using nonempty, digits⟩
    rw [if_pos shape]
    exact ⟨rfl, small⟩

theorem denotes_toString {number : Nat} (small : number < 2 ^ 64) :
    Denotes (toString number).toList number := by
  rw [← word?_eq_some_iff, word?, natural?_toString]
  simpa using small

theorem isBlank_of_isDigit {char : Char} (digit : char.isDigit = true) : isBlank char = false := by
  have bounds : 48 ≤ char.toNat ∧ char.toNat ≤ 57 := Char.isDigit_iff_toNat.mp digit
  simp only [isBlank, blankRanges, List.any_cons, List.any_nil, Bool.or_false, Bool.or_eq_false_iff,
    Bool.and_eq_false_iff, decide_eq_false_iff_not]
  omega

theorem toString_injective {one other : Nat} (same : toString one = toString other) :
    one = other := by
  have numbers := congrArg (fun text : String => natural? text.toList) same
  simpa only [natural?_toString, Option.some.injEq] using numbers

theorem toList_binary (width value : Nat) :
    ∃ zeros, (binary width value).toList =
      List.replicate zeros '0' ++ Nat.toDigits 2 value := by
  refine ⟨width - (digits 2 value).length, ?_⟩
  rw [binary, String.toList_ofList, digits_eq_toDigits (by decide)]

theorem of_mem_binary {width value : Nat} {char : Char}
    (member : char ∈ (binary width value).toList) : char = '0' ∨ char = '1' := by
  obtain ⟨zeros, text⟩ := toList_binary width value
  rw [text] at member
  rcases List.mem_append.mp member with padding | digit
  · exact .inl (List.eq_of_mem_replicate padding)
  · obtain ⟨bit, within, rfl⟩ := exists_of_mem_toDigits (by decide) digit
    match bit, within with
    | 0, _ => exact .inl rfl
    | 1, _ => exact .inr rfl

theorem binary_ne_nil (width value : Nat) : (binary width value).toList ≠ [] := by
  obtain ⟨zeros, text⟩ := toList_binary width value
  rw [text]
  exact fun none => Nat.toDigits_ne_nil (List.append_eq_nil_iff.mp none).2

/-- A binary numeral reads back as the number it was written for, however it is padded. -/
theorem ofDigitChars_binary (width value : Nat) :
    Nat.ofDigitChars 2 (binary width value).toList 0 = value := by
  obtain ⟨zeros, text⟩ := toList_binary width value
  rw [text, Nat.ofDigitChars_append, Nat.ofDigitChars_replicate_zero, Nat.mul_zero,
    Nat.ofDigitChars_toDigits (by decide) (by decide)]

end GoldenCircuit.Text
