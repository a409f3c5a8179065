import GoldenCircuit.Text.Blank
import GoldenCircuit.Text.Lines

/-! The words of a text, which white space separates. A text that is put together with white space
between its parts has the words of its parts, so a text of lines has the words of its lines. -/
namespace GoldenCircuit.Text

/-- The words of a text, in order. -/
def words (text : String) : List String :=
  ((text.toList.splitOnP isBlank).filter (!·.isEmpty)).map String.ofList

/-- A text that is one word. -/
def IsWord (text : String) : Prop :=
  text ≠ "" ∧ text.toList.any isBlank = false

instance (text : String) : Decidable (IsWord text) :=
  inferInstanceAs (Decidable (_ ∧ _))

theorem words_append_separator (left right : String) {separator : String} {blank : Char}
    (single : separator.toList = [blank]) (separates : isBlank blank = true) :
    words (left ++ separator ++ right) = words left ++ words right := by
  have split : (left ++ separator ++ right).toList = left.toList ++ blank :: right.toList := by
    rw [String.toList_append, String.toList_append, single, List.append_assoc]
    rfl
  rw [words, split, List.splitOnP_append_cons _ _ separates, List.filter_append, List.map_append,
    words, words]

theorem words_append_space (left right : String) :
    words (left ++ " " ++ right) = words left ++ words right :=
  words_append_separator left right (String.toList_ofList : _ = [' ']) (by decide)

theorem words_unlines (lines : List String) : words (unlines lines) = lines.flatMap words := by
  induction lines with
  | nil => rfl
  | cons line lines ih =>
    have first : unlines (line :: lines) = line ++ "\n" ++ unlines lines := by
      rw [unlines, List.map_cons, String.join_cons, unlines]
    rw [first, words_append_separator _ _ (String.toList_ofList : _ = ['\n']) (by decide), ih,
      List.flatMap_cons]

namespace IsWord

variable {text other : String}

theorem words_eq (word : IsWord text) : words text = [text] := by
  have nonempty : text.toList.isEmpty = false := by
    rw [List.isEmpty_eq_false_iff]
    intro none
    exact word.1 (String.toList_eq_nil_iff.mp none)
  have visible : ∀ char ∈ text.toList, isBlank char = false :=
    fun char member => Bool.eq_false_iff.mpr (List.any_eq_false.mp word.2 char member)
  rw [words, List.splitOnP_eq_singleton visible]
  simp only [List.filter_cons, nonempty, Bool.not_false, if_true, List.filter_nil, List.map_cons,
    List.map_nil, String.ofList_toList]

theorem append (visible : text.toList.any isBlank = false) (word : IsWord other) :
    IsWord (text ++ other) := by
  constructor
  · intro none
    rw [String.append_eq_empty_iff] at none
    exact word.1 none.2
  · rw [String.toList_append, List.any_append, visible, word.2]
    rfl

theorem concat (word : IsWord text) (visible : other.toList.any isBlank = false) :
    IsWord (text ++ other) := by
  constructor
  · intro none
    rw [String.append_eq_empty_iff] at none
    exact word.1 none.1
  · rw [String.toList_append, List.any_append, visible, word.2]
    rfl

end IsWord
end GoldenCircuit.Text
