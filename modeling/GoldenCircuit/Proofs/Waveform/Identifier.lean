import GoldenCircuit.Waveform.Identifier
import GoldenCircuit.Proofs.Text.Words

/-! Identifiers tell their signals apart: the index can be read back from the characters. They are
made of printable characters, so each of them is one word. -/
namespace GoldenCircuit.Waveform

theorem toNat_symbol {digit : Nat} (within : digit < symbolCount) :
    (symbol digit).toNat = '!'.toNat + digit := by
  have valid : ('!'.toNat + digit).isValidChar := by
    left
    have : digit < 94 := within
    have : '!'.toNat = 33 := rfl
    omega
  rw [symbol, Char.ofNat, dif_pos valid]
  rfl

/-- The number of an identifier, counted from one. The empty text would have the number zero. -/
def ordinal (chars : List Char) : Nat :=
  chars.foldl (fun number char => number * symbolCount + (char.toNat - '!'.toNat) + 1) 0

theorem ordinal_concat (chars : List Char) {digit : Nat} (within : digit < symbolCount) :
    ordinal (chars ++ [symbol digit]) = ordinal chars * symbolCount + digit + 1 := by
  rw [ordinal, List.foldl_append, List.foldl_cons, List.foldl_nil, toNat_symbol within,
    Nat.add_sub_cancel_left, ordinal]

/-- The index that the characters before the last one spell takes less fuel. -/
theorem higher_lt {fuel index : Nat} (enough : index < fuel + 1)
    (long : index / symbolCount ≠ 0) : index / symbolCount - 1 < fuel := by
  unfold symbolCount at long ⊢
  omega

theorem ordinal_numeral {fuel index : Nat} (enough : index < fuel) :
    ordinal (numeral fuel index) = index + 1 := by
  induction fuel generalizing index with
  | zero => contradiction
  | succ fuel ih =>
    have last : index % symbolCount < symbolCount := Nat.mod_lt _ (by decide)
    have index_eq : index / symbolCount * symbolCount + index % symbolCount = index := by
      rw [Nat.mul_comm]
      exact Nat.div_add_mod _ _
    rw [numeral, ordinal_concat _ last]
    split
    next short =>
      rw [short] at index_eq
      rw [show ordinal [] = 0 from rfl, index_eq]
    next long =>
      rw [ih (higher_lt enough long), Nat.sub_add_cancel (Nat.pos_of_ne_zero long), index_eq]

/-- The characters of an identifier, whether it is short or long. -/
theorem toList_identifier (index : Nat) :
    (identifier index).toList = numeral (index + 1) index := by
  rw [identifier]
  split
  next short =>
    rw [String.toList_singleton, numeral, if_pos (Nat.div_eq_of_lt short), Nat.mod_eq_of_lt short,
      List.nil_append]
  next => rw [String.toList_ofList]

theorem identifier_injective {first second : Nat} (same : identifier first = identifier second) :
    first = second := by
  have numbers := congrArg (fun text => ordinal text.toList) same
  simp only [toList_identifier] at numbers
  rw [ordinal_numeral (Nat.lt_succ_self _), ordinal_numeral (Nat.lt_succ_self _)] at numbers
  exact Nat.succ.inj numbers

theorem exists_of_mem_numeral {fuel index : Nat} {char : Char}
    (member : char ∈ numeral fuel index) : ∃ digit < symbolCount, char = symbol digit := by
  induction fuel generalizing index with
  | zero => contradiction
  | succ fuel ih =>
    rcases List.mem_append.mp member with higher | last
    · split at higher
      · contradiction
      · exact ih higher
    · exact ⟨_, Nat.mod_lt _ (by decide), List.mem_singleton.mp last⟩

theorem isBlank_symbol : ∀ digit < symbolCount, Text.isBlank (symbol digit) = false := by
  decide

theorem isWord_identifier (index : Nat) : Text.IsWord (identifier index) := by
  constructor
  · intro empty
    have number := ordinal_numeral (Nat.lt_succ_self index)
    rw [← toList_identifier, empty] at number
    contradiction
  · rw [toList_identifier, List.any_eq_false]
    intro char member
    obtain ⟨digit, within, rfl⟩ := exists_of_mem_numeral member
    exact Bool.eq_false_iff.mp (isBlank_symbol digit within)

end GoldenCircuit.Waveform
