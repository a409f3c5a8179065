import GoldenCircuit.Proofs.Text.Words

/-! Texts read line by line, and the lines word by word. A line is put together from parts that are
lines themselves, so what a reader finds on it is what its parts hold. -/
namespace GoldenCircuit.Text

/-- The words of each line. A text whose last line does not end is refused. -/
def wordLines? (text : String) : Option (List (List String)) :=
  let pieces := text.toList.splitOn '\n'
  if pieces.getLast? = some [] then
    some (pieces.dropLast.map fun piece => words (String.ofList piece))
  else
    none

/-- A text that is one line and holds these words. -/
structure IsLine (line : String) (tokens : List String) : Prop where
  single : '\n' ∉ line.toList
  words_eq : words line = tokens

instance (line : String) (tokens : List String) : Decidable (IsLine line tokens) :=
  decidable_of_iff ('\n' ∉ line.toList ∧ words line = tokens)
    ⟨fun both => ⟨both.1, both.2⟩, fun line => ⟨line.1, line.2⟩⟩

namespace IsLine

variable {line left right text : String} {tokens before after : List String}

theorem of_word (word : IsWord text) : IsLine text [text] := by
  constructor
  · intro member
    exact List.any_eq_false.mp word.2 '\n' member (by decide)
  · exact word.words_eq

theorem append (first : IsLine left before) (second : IsLine right after) :
    IsLine (left ++ " " ++ right) (before ++ after) := by
  constructor
  · have blank : '\n' ∉ " ".toList := by decide
    simp only [String.toList_append, List.mem_append, first.single, second.single, blank, or_self,
      not_false_iff]
  · rw [words_append_space, first.words_eq, second.words_eq]

/-- A line that starts like another one and goes on with words, each after a blank. -/
theorem join {start : String} (first : IsLine start tokens) {more : List String}
    (others : ∀ text ∈ more, IsWord text)
    (spaced : line.toList = start.toList ++ more.flatMap fun text => ' ' :: text.toList) :
    IsLine line (tokens ++ more) := by
  induction more generalizing start tokens with
  | nil =>
    have same : line = start := String.toList_inj.mp (by simpa using spaced)
    simpa [same] using first
  | cons text more ih =>
    have longer := first.append (of_word (others text List.mem_cons_self))
    have all := ih longer (fun other member => others other (List.mem_cons_of_mem _ member))
      (by simp [spaced])
    simpa using all

end IsLine

/-- Lines and the words on each of them. -/
structure AreLines (lines : List String) (tokens : List (List String)) : Prop where
  single : ∀ line ∈ lines, '\n' ∉ line.toList
  words_eq : lines.map words = tokens

namespace AreLines

variable {lines others : List String} {tokens more : List (List String)}

theorem nil : AreLines [] [] where
  single := by simp
  words_eq := rfl

theorem cons {line : String} {found : List String} (first : IsLine line found)
    (rest : AreLines lines tokens) : AreLines (line :: lines) (found :: tokens) where
  single := by simpa [first.single] using rest.single
  words_eq := by rw [List.map_cons, first.words_eq, rest.words_eq]

theorem append (first : AreLines lines tokens) (second : AreLines others more) :
    AreLines (lines ++ others) (tokens ++ more) where
  single line member := (List.mem_append.mp member).elim (first.single line) (second.single line)
  words_eq := by rw [List.map_append, first.words_eq, second.words_eq]

theorem map {Item : Type} {items : List Item} {render : Item → String}
    {spell : Item → List String} (each : ∀ item ∈ items, IsLine (render item) (spell item)) :
    AreLines (items.map render) (items.map spell) where
  single line member := by
    obtain ⟨item, among, rfl⟩ := List.mem_map.mp member
    exact (each item among).single
  words_eq := by
    rw [List.map_map]
    exact List.map_congr_left fun item member => (each item member).words_eq

end AreLines

theorem splitOn_unlines {lines : List String} (single : ∀ line ∈ lines, '\n' ∉ line.toList) :
    (unlines lines).toList.splitOn '\n' = lines.map String.toList ++ [[]] := by
  induction lines with
  | nil => rfl
  | cons line lines ih =>
    have text : (unlines (line :: lines)).toList =
        line.toList ++ '\n' :: (unlines lines).toList := by
      simp [unlines, String.join_cons]
    have later := ih fun other member => single other (List.mem_cons_of_mem _ member)
    rw [text, List.splitOn_append_cons_self_of_not_mem (single line List.mem_cons_self), later]
    rfl

/-- The lines of a text. What stands behind the last line feed is no line. -/
def lines (text : String) : List String :=
  (text.toList.splitOn '\n').dropLast.map String.ofList

/-- The lines at the end of a text are there whatever stands before them. -/
theorem exists_lines_unlines (before : List String) {after : List String}
    (single : ∀ line ∈ after, '\n' ∉ line.toList) :
    ∃ others, lines (unlines (before ++ after)) = others ++ after := by
  induction before with
  | nil => exact ⟨[], by simp [lines, splitOn_unlines single, Function.comp_def]⟩
  | cons line before ih =>
    obtain ⟨others, rest⟩ := ih
    have text : (unlines (line :: before ++ after)).toList =
        line.toList ++ '\n' :: (unlines (before ++ after)).toList := by
      simp [unlines, String.join_cons]
    refine ⟨(line.toList.splitOn '\n').map String.ofList ++ others, ?_⟩
    rw [List.append_assoc, ← rest, lines, text, List.splitOn_append_cons_self,
      List.dropLast_append_of_ne_nil (List.splitOn_ne_nil _ _), List.map_append, lines]

/-- A text of lines reads back as the words on each of them. -/
theorem wordLines?_unlines {lines : List String} {tokens : List (List String)}
    (spelt : AreLines lines tokens) : wordLines? (unlines lines) = some tokens := by
  simp [wordLines?, splitOn_unlines spelt.single, ← spelt.words_eq, Function.comp_def]

end GoldenCircuit.Text
