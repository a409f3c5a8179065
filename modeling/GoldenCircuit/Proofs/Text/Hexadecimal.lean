import GoldenCircuit.Json.Literal
import GoldenCircuit.Proofs.Text.Numeral

/-! Hexadecimal numerals read back as the numbers they were written for. -/
namespace GoldenCircuit.Text

/-- The number that hexadecimal digits denote, the most significant first. -/
def ofHexDigits? (digits : List Char) : Option Nat :=
  digits.foldlM (fun value digit => do return 16 * value + (← Json.hexValue? digit)) 0

/-- The number that a hexadecimal numeral denotes: one or more digits in either case. -/
def hex? (numeral : List Char) : Option Nat :=
  if numeral.isEmpty then none else ofHexDigits? numeral

theorem hexValue?_digitChar : ∀ digit < 16, Json.hexValue? (Nat.digitChar digit) = some digit := by
  decide

theorem ofHexDigits?_toDigits (value : Nat) : ofHexDigits? (Nat.toDigits 16 value) = some value := by
  induction value using Nat.strongRecOn with
  | ind value ih =>
    rw [Nat.toDigits_eq_if (by decide)]
    split
    next single => simp [ofHexDigits?, hexValue?_digitChar value single]
    next many =>
      have high := ih (value / 16) (Nat.div_lt_self (by omega) (by decide))
      have last := hexValue?_digitChar (value % 16) (Nat.mod_lt _ (by decide))
      rw [ofHexDigits?, List.foldlM_append, ← ofHexDigits?, high]
      simp [last, Nat.div_add_mod]

theorem toList_hex (value : Nat) : (hex value).toList = Nat.toDigits 16 value := by
  rw [hex, String.toList_ofList, digits_eq_toDigits (by decide)]

theorem hex?_hex (value : Nat) : hex? (hex value).toList = some value := by
  rw [toList_hex, hex?, if_neg (by simp [Nat.toDigits_ne_nil]), ofHexDigits?_toDigits]

theorem isBlank_of_mem_hex {value : Nat} {char : Char} (member : char ∈ (hex value).toList) :
    isBlank char = false := by
  have visible : ∀ digit < 16, isBlank (Nat.digitChar digit) = false := by decide
  rw [toList_hex] at member
  obtain ⟨digit, within, rfl⟩ := exists_of_mem_toDigits (by decide) member
  exact visible digit within

theorem isWord_hex (value : Nat) : IsWord (hex value) := by
  constructor
  · intro empty
    have none := toList_hex value
    rw [empty] at none
    exact Nat.toDigits_ne_nil none.symm
  · rw [List.any_eq_false]
    intro char member
    exact Bool.eq_false_iff.mp (isBlank_of_mem_hex member)

end GoldenCircuit.Text
