import Mathlib.Data.List.Induction
import Mathlib.Data.List.Shortlex
import Mathlib.Data.Set.Function
import Mathlib.Logic.Function.Iterate
import GoldenCircuit.Proofs.Waveform.Identifier

/-! Identifiers enumerate the printable texts. What stands before the last character of an identifier
is an earlier identifier, or nothing. So every nonempty text of printable characters is an identifier,
no two indices share one, and they come in the order of their lengths and then of their characters. -/
namespace GoldenCircuit.Waveform

theorem exists_symbol_iff {char : Char} :
    (∃ digit < symbolCount, char = symbol digit) ↔ 33 ≤ char.toNat ∧ char.toNat ≤ 126 := by
  have first : '!'.toNat = 33 := rfl
  have count : symbolCount = 94 := rfl
  constructor
  · rintro ⟨digit, within, rfl⟩
    rw [toNat_symbol within]
    omega
  · rintro ⟨above, below⟩
    have within : char.toNat - 33 < symbolCount := by omega
    refine ⟨char.toNat - 33, within, Char.toNat_inj.mp ?_⟩
    rw [toNat_symbol within]
    omega

theorem symbol_lt {first second : Nat} (before : first < second) (within : second < symbolCount) :
    symbol first < symbol second := by
  have chars : (symbol first).toNat < (symbol second).toNat := by
    rw [toNat_symbol (before.trans within), toNat_symbol within]
    omega
  exact chars

/-! ### How an identifier is made up -/

/-- Fuel that exceeds the index is never used up. -/
theorem numeral_eq_numeral {fuel more index : Nat} (enough : index < fuel)
    (enough' : index < more) : numeral fuel index = numeral more index := by
  induction fuel generalizing more index with
  | zero => contradiction
  | succ fuel ih =>
    cases more with
    | zero => contradiction
    | succ more =>
      rw [numeral, numeral]
      split
      next => rfl
      next long => rw [ih (higher_lt enough long) (higher_lt enough' long)]

theorem numeral_of_lt {fuel index : Nat} (enough : index < fuel) :
    numeral fuel index = (identifier index).toList := by
  rw [toList_identifier]
  exact numeral_eq_numeral enough (Nat.lt_succ_self index)

/-- The characters with an ordinal: none for zero, and then those of the identifiers in turn. -/
def spelled : Nat → List Char
  | 0 => []
  | index + 1 => (identifier index).toList

/-- The counterpart of `ordinal_concat`: which number has the characters of another one, and one more
behind them. -/
theorem spelled_concat (number : Nat) {digit : Nat} (within : digit < symbolCount) :
    spelled (number * symbolCount + digit + 1) = spelled number ++ [symbol digit] := by
  have pos : 0 < symbolCount := by decide
  have higher : (number * symbolCount + digit) / symbolCount = number := by
    rw [Nat.mul_comm, Nat.mul_add_div pos, Nat.div_eq_of_lt within, Nat.add_zero]
  have last : (number * symbolCount + digit) % symbolCount = digit := by
    rw [Nat.mul_comm, Nat.mul_add_mod, Nat.mod_eq_of_lt within]
  rw [spelled, toList_identifier, numeral, higher, last]
  cases number with
  | zero => rfl
  | succ index =>
    rw [if_neg (Nat.succ_ne_zero index), Nat.add_sub_cancel, numeral_of_lt, spelled]
    unfold symbolCount
    omega

/-- Every number but zero is made up in this way. -/
theorem exists_concat {number : Nat} (pos : 0 < number) :
    ∃ front digit, digit < symbolCount ∧ number = front * symbolCount + digit + 1 := by
  refine ⟨(number - 1) / symbolCount, (number - 1) % symbolCount, Nat.mod_lt _ (by decide), ?_⟩
  rw [Nat.mul_comm, Nat.div_add_mod, Nat.sub_add_cancel pos]

theorem spelled_ordinal {chars : List Char}
    (printable : ∀ char ∈ chars, 33 ≤ char.toNat ∧ char.toNat ≤ 126) :
    spelled (ordinal chars) = chars := by
  induction chars using List.reverseRecOn with
  | nil => rfl
  | append_singleton chars char ih =>
    obtain ⟨earlier, last⟩ := List.forall_mem_append.mp printable
    obtain ⟨digit, within, rfl⟩ := exists_symbol_iff.mpr (last char (List.mem_singleton_self char))
    rw [ordinal_concat chars within, spelled_concat _ within, ih earlier]

/-! ### The order of identifiers -/

section Letters

variable {Letter : Type} {before : Letter → Letter → Prop} {first second : List Letter}

theorem lex_concat (same : first.length = second.length) (differ : List.Lex before first second)
    (last last' : Letter) : List.Lex before (first ++ [last]) (second ++ [last']) := by
  induction differ with
  | nil => contradiction
  | cons differ ih => exact .cons (ih (Nat.succ.inj same))
  | rel less => exact .rel less

/-- Whatever characters are put behind them, texts keep their order. -/
theorem shortlex_concat (shorter : List.Shortlex before first second) (last last' : Letter) :
    List.Shortlex before (first ++ [last]) (second ++ [last']) := by
  rcases List.shortlex_def.mp shorter with fewer | ⟨same, differ⟩
  · exact .of_length_lt (by simpa using fewer)
  · exact .of_lex (by simpa using same) (lex_concat same differ last last')

end Letters

theorem shortlex_spelled {first second : Nat} (before : first < second) :
    List.Shortlex (· < ·) (spelled first) (spelled second) := by
  induction second using Nat.strongRecOn generalizing first with
  | ind second ih =>
    obtain ⟨front', digit', within', rfl⟩ := exists_concat (Nat.zero_lt_of_lt before)
    rw [spelled_concat front' within']
    rcases Nat.eq_zero_or_pos first with rfl | pos
    · exact .of_length_lt (by simp [spelled])
    · obtain ⟨front, digit, within, rfl⟩ := exists_concat pos
      rw [spelled_concat front within]
      -- the texts differ before their last characters, or in these
      rcases Nat.lt_trichotomy front front' with earlier | rfl | later
      · refine shortlex_concat (ih front' ?_ earlier) _ _
        unfold symbolCount
        omega
      · refine List.Shortlex.append_left ?_ _
        rw [List.shortlex_singleton_iff]
        exact symbol_lt (by omega) within'
      · unfold symbolCount at before within within'
        omega

/-! ### Writing from the last character on -/

/-- An identifier that is being written from its last character on. -/
structure Spelling where
  /-- The index that the characters before the written ones spell, if there are any. -/
  missing : Option Nat
  written : List Char

namespace Spelling

/-- Writes one more character, in front of the others. Once none is missing, all is done. -/
def next : Spelling → Spelling
  | ⟨none, written⟩ => ⟨none, written⟩
  | ⟨some index, written⟩ =>
    let higher := index / symbolCount
    ⟨if higher = 0 then none else some (higher - 1), symbol (index % symbolCount) :: written⟩

/-- As many rounds as an identifier has characters write it, and then none is missing. -/
theorem iterate_next (index : Nat) (written : List Char) :
    next^[(identifier index).length] ⟨some index, written⟩ =
      ⟨none, (identifier index).toList ++ written⟩ := by
  induction index using Nat.strongRecOn generalizing written with
  | ind index ih =>
    have last : index % symbolCount < symbolCount := Nat.mod_lt _ (by decide)
    have chars : (identifier index).toList =
        spelled (index / symbolCount) ++ [symbol (index % symbolCount)] := by
      rw [← spelled_concat _ last, Nat.mul_comm, Nat.div_add_mod, spelled]
    rw [← String.length_toList, chars, List.length_append, List.length_singleton,
      Function.iterate_succ_apply, next, List.append_assoc, List.singleton_append]
    -- what is missing then are the characters of a smaller index, or none
    cases front : index / symbolCount with
    | zero => rfl
    | succ higher =>
      have smaller : higher < index := by
        have : higher < index / symbolCount := front ▸ Nat.lt_succ_self higher
        exact this.trans_le (Nat.div_le_self _ _)
      rw [if_neg (Nat.succ_ne_zero higher), Nat.add_sub_cancel, spelled, String.length_toList]
      exact ih higher smaller _

end Spelling

/-- The identifiers are the nonempty texts of the characters from the exclamation mark to the tilde,
each of them once, in the order of their lengths and then of their characters. Written from its last
character on, the identifier of any index, short or long, is complete after as many rounds as it has
characters, and no numeral runs out of fuel. -/
theorem identifier_enumerates :
    Set.BijOn identifier Set.univ
      {text | text ≠ "" ∧ ∀ char ∈ text.toList, 33 ≤ char.toNat ∧ char.toNat ≤ 126} ∧
    (∀ first second, List.Shortlex (· < ·) (identifier first).toList (identifier second).toList ↔
      first < second) ∧
    (∀ index, Spelling.next^[(identifier index).length] ⟨some index, []⟩ =
      ⟨none, (identifier index).toList⟩) ∧
    ∀ index spare, numeral (index + 1 + spare) index = (identifier index).toList := by
  refine ⟨⟨?mapsTo, ?injOn, ?surjOn⟩, fun first second => ⟨?reflects, ?increases⟩,
    fun index => ?written, fun index spare => numeral_of_lt (by omega)⟩
  case mapsTo =>
    intro index _
    refine ⟨(isWord_identifier index).1, fun char member => ?_⟩
    rw [toList_identifier] at member
    exact exists_symbol_iff.mp (exists_of_mem_numeral member)
  case injOn =>
    intro first _ second _ same
    exact identifier_injective same
  case surjOn =>
    rintro text ⟨nonempty, printable⟩
    have chars := spelled_ordinal printable
    cases number : ordinal text.toList with
    | zero =>
      rw [number, spelled] at chars
      exact absurd (String.toList_eq_nil_iff.mp chars.symm) nonempty
    | succ index =>
      rw [number, spelled] at chars
      exact ⟨index, Set.mem_univ index, String.toList_injective chars⟩
  case increases =>
    intro before
    exact shortlex_spelled (Nat.succ_lt_succ before)
  case reflects =>
    intro shorter
    by_contra late
    rcases Nat.eq_or_lt_of_le (Nat.le_of_not_lt late) with rfl | after
    · exact asymm shorter shorter
    · exact asymm shorter (shortlex_spelled (Nat.succ_lt_succ after))
  case written =>
    have written := Spelling.iterate_next index []
    rwa [List.append_nil] at written

/-- The last identifiers of one and of two characters, each with the one that follows it. -/
example : [93, 94, 94 + 94 ^ 2 - 1, 94 + 94 ^ 2].map identifier = ["~", "!!", "~~", "!!!"] := by
  decide

end GoldenCircuit.Waveform
