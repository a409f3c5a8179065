import Mathlib.Data.List.DropRight
import GoldenCircuit.Text.Blank

/-! Text without white space at its ends. What is cut off is white space, and text that holds none
is kept whole, whatever white space stands around it. -/
namespace GoldenCircuit.Text

theorem trim_eq_rdropWhile (text : List Char) :
    trim text = (text.dropWhile isBlank).rdropWhile isBlank :=
  rfl

/-- A text is its trimmed part with white space around it. -/
theorem exists_trim (text : List Char) : ∃ before after, text = before ++ trim text ++ after ∧
    (∀ char ∈ before, isBlank char = true) ∧ ∀ char ∈ after, isBlank char = true := by
  refine ⟨text.takeWhile isBlank, (text.dropWhile isBlank).rtakeWhile isBlank, ?_, ?_, ?_⟩
  · rw [trim_eq_rdropWhile, List.append_assoc, List.rdropWhile_append_rtakeWhile,
      List.takeWhile_append_dropWhile]
  · exact fun char member => List.mem_takeWhile_imp member
  · exact fun char member => List.mem_rtakeWhile_imp member

theorem dropWhile_of_visible {text : List Char} (visible : ∀ char ∈ text, isBlank char = false) :
    text.dropWhile isBlank = text := by
  cases text with
  | nil => rfl
  | cons char text =>
    rw [List.dropWhile_cons_of_neg]
    simp [visible char List.mem_cons_self]

/-- Text that holds no white space is what remains when white space around it is cut off. -/
theorem trim_append {before middle after : List Char} (nonempty : middle ≠ [])
    (blank_before : ∀ char ∈ before, isBlank char = true)
    (visible : ∀ char ∈ middle, isBlank char = false)
    (blank_after : ∀ char ∈ after, isBlank char = true) :
    trim (before ++ middle ++ after) = middle := by
  have front : (before ++ middle ++ after).dropWhile isBlank = middle ++ after := by
    obtain ⟨char, rest, rfl⟩ := List.exists_cons_of_ne_nil nonempty
    rw [List.append_assoc, List.dropWhile_append_of_pos blank_before, List.cons_append,
      List.dropWhile_cons_of_neg]
    simp [visible char List.mem_cons_self]
  have back : (middle ++ after).reverse.dropWhile isBlank = middle.reverse := by
    rw [List.reverse_append, List.dropWhile_append_of_pos (by simpa using blank_after),
      dropWhile_of_visible (by simpa using visible)]
  rw [trim, front, back, List.reverse_reverse]

end GoldenCircuit.Text
