import GoldenCircuit.Waveform.Dump
import GoldenCircuit.Proofs.Text.Numeral
import GoldenCircuit.Proofs.Waveform.Identifier
import GoldenCircuit.Proofs.Waveform.Reader

/-! What the lines of a dump spell to its reader, whatever follows them. -/
namespace GoldenCircuit.Waveform

theorem ne_end_of_toList {word : String} {first : Char} {others : List Char}
    (text : word.toList = first :: others) (other : first ≠ '$') : word ≠ "$end" := by
  rintro rfl
  rw [show "$end".toList = ['$', 'e', 'n', 'd'] from String.toList_ofList, List.cons.injEq] at text
  exact other text.1.symm

theorem readItems_close (words : List String) :
    readItems ("$end" :: words) = (readItems words).map (.close :: ·) := by
  rw [readItems, if_pos rfl]

theorem readItems_mark {word : String} {digits : List Char} {time : Nat}
    (text : word.toList = '#' :: digits) (number : Text.natural? digits = some time)
    (words : List String) :
    readItems (word :: words) = (readItems words).map (.mark time :: ·) := by
  rw [readItems, if_neg (ne_end_of_toList text (by decide))]
  simp only [text, number]
  rfl

theorem readItems_vector {word identifier : String} {bits : List Char} {value : Option Nat}
    (text : word.toList = 'b' :: bits) (known : vector? bits = some value) (words : List String) :
    readItems (word :: identifier :: words) =
      (readItems words).map (.assign identifier value :: ·) := by
  rw [readItems, if_neg (ne_end_of_toList text (by decide))]
  simp only [text, known]
  rfl

theorem readItems_scalar {word identifier : String} {bit : Char} {value : Option Nat}
    (text : word.toList = bit :: identifier.toList) (known : scalar? bit = some value)
    (words : List String) :
    readItems (word :: words) = (readItems words).map (.assign identifier value :: ·) := by
  have not_end : word ≠ "$end" := by
    apply ne_end_of_toList text
    rintro rfl
    cases known
  rw [readItems, if_neg not_end]
  split
  next other =>
    obtain ⟨rfl, _⟩ := List.cons.inj (text.symm.trans other)
    cases known
  next other =>
    obtain ⟨rfl, _⟩ := List.cons.inj (text.symm.trans other)
    cases known
  next other =>
    obtain ⟨rfl, rfl⟩ := List.cons.inj (text.symm.trans other)
    rw [known, String.ofList_toList]
    rfl
  next none =>
    rw [text] at none
    contradiction

/-- Reading the words of some lines gives these items, and goes on with the words after them. -/
def Spells (lines : List String) (items : List Item) : Prop :=
  ∀ words, readItems (lines.flatMap Text.words ++ words) = (readItems words).map (items ++ ·)

theorem Spells.nil : Spells [] [] := by
  intro words
  exact (congrFun Option.map_id _).symm

theorem Spells.append {lines others : List String} {items more : List Item}
    (first : Spells lines items) (second : Spells others more) :
    Spells (lines ++ others) (items ++ more) := by
  intro words
  rw [List.flatMap_append, List.append_assoc, first, second, Option.map_map]
  congr 1
  funext rest
  exact (List.append_assoc _ _ _).symm

theorem Spells.cons {line : String} {lines : List String} {items more : List Item}
    (first : Spells [line] items) (second : Spells lines more) :
    Spells (line :: lines) (items ++ more) :=
  first.append second

theorem Spells.readItems_eq {lines : List String} {items : List Item}
    (spells : Spells lines items) : readItems (lines.flatMap Text.words) = some items := by
  have all := spells []
  rwa [List.append_nil, readItems, Option.map_some, List.append_nil] at all

theorem spells_of_word {line : String} {item : Item} (word : Text.IsWord line)
    (reads : ∀ words, readItems (line :: words) = (readItems words).map (item :: ·)) :
    Spells [line] [item] := by
  intro words
  rw [List.flatMap_singleton, word.words_eq]
  exact reads words

theorem spells_end : Spells ["$end"] [.close] :=
  spells_of_word (by decide) readItems_close

theorem spells_timeLine (time : Nat) : Spells [timeLine time] [.mark time] := by
  have text : (timeLine time).toList = '#' :: (toString time).toList := by
    rw [timeLine, String.toList_append]
    rfl
  have word : Text.IsWord (timeLine time) :=
    .append (by decide) (Text.isWord_toString time)
  exact spells_of_word word (readItems_mark text (Text.natural?_toString time))

theorem spells_scalar {front : String} {bit : Char} {value : Option Nat}
    (single : front.toList = [bit]) (visible : Text.isBlank bit = false)
    (known : scalar? bit = some value) (index : Nat) :
    Spells [front ++ identifier index] [.assign (identifier index) value] := by
  have text : (front ++ identifier index).toList = bit :: (identifier index).toList := by
    rw [String.toList_append, single]
    rfl
  have word : Text.IsWord (front ++ identifier index) := by
    refine .append ?_ (isWord_identifier index)
    rw [single, List.any_cons, visible]
    rfl
  exact spells_of_word word (readItems_scalar text known)

theorem spells_vector {bits : String} {value : Option Nat} (word : Text.IsWord bits)
    (known : vector? bits.toList = some value) (index : Nat) :
    Spells ["b" ++ bits ++ " " ++ identifier index] [.assign (identifier index) value] := by
  have text : ("b" ++ bits).toList = 'b' :: bits.toList := by
    rw [String.toList_append]
    rfl
  have front : Text.IsWord ("b" ++ bits) := .append (by decide) word
  intro words
  rw [List.flatMap_singleton, Text.words_append_space, front.words_eq,
    (isWord_identifier index).words_eq]
  exact readItems_vector text known words

theorem spells_unknownLine (width index : Nat) :
    Spells [unknownLine width index] [.assign (identifier index) none] := by
  rw [unknownLine]
  split
  next => exact spells_scalar (String.toList_ofList : _ = ['x']) (by decide) rfl index
  next => exact spells_vector (by decide : Text.IsWord "x") rfl index

theorem vector?_binary (width value : Nat) :
    vector? (Text.binary width value).toList = some (some value) := by
  have bits : ∀ bit ∈ (Text.binary width value).toList, bit = '0' ∨ bit = '1' :=
    fun bit member => Text.of_mem_binary member
  have known : (Text.binary width value).toList ≠ ['x'] := by
    intro unknown
    rcases bits 'x' (unknown ▸ List.mem_singleton_self _) with zero | one
    · cases zero
    · cases one
  have nonempty : (Text.binary width value).toList.isEmpty = false := by
    rw [List.isEmpty_eq_false_iff]
    exact Text.binary_ne_nil width value
  have all : (Text.binary width value).toList.all (fun bit => bit = '0' || bit = '1') = true := by
    rw [List.all_eq_true]
    intro bit member
    simpa using bits bit member
  rw [vector?, if_neg known, nonempty, all, Text.ofDigitChars_binary]
  rfl

theorem isWord_binary (width value : Nat) : Text.IsWord (Text.binary width value) := by
  constructor
  · intro empty
    exact Text.binary_ne_nil width value (by rw [empty]; rfl)
  · rw [List.any_eq_false]
    intro char member
    rcases Text.of_mem_binary member with rfl | rfl
    · decide
    · decide

theorem spells_valueLine {width value : Nat} (fits : value < 2 ^ width) (index : Nat) :
    Spells [valueLine width index value] [.assign (identifier index) (some value)] := by
  rw [valueLine]
  split
  next single =>
    subst single
    match value, fits with
    | 0, _ => exact spells_scalar (String.toList_ofList : _ = ['0']) (by decide) rfl index
    | 1, _ => exact spells_scalar (String.toList_ofList : _ = ['1']) (by decide) rfl index
  next => exact spells_vector (isWord_binary width value) (vector?_binary width value) index

/-- The items that the lines of the initial values spell. -/
theorem spells_unknownLines (signals : List Variable) :
    Spells (signals.mapIdx fun index declared => unknownLine declared.width index)
      (signals.mapIdx fun index _ => .assign (identifier index) none) := by
  rw [List.mapIdx_eq_zipIdx_map, List.mapIdx_eq_zipIdx_map]
  generalize signals.zipIdx = placed
  induction placed with
  | nil => exact .nil
  | cons signal placed ih =>
    exact (spells_unknownLine signal.1.width signal.2).cons ih

/-- The items of changes, of which the first comes after a change at the time `before`. -/
def bodyItems : (before : Option Nat) → List Change → List Item
  | _, [] => []
  | before, change :: changes =>
    (if before = some change.time then [] else [.mark change.time]) ++
      .assign (identifier change.index) (some change.value) :: bodyItems (some change.time) changes

theorem spells_bodyLines {widths : Nat → Nat} {changes : List Change}
    (fits : ∀ change ∈ changes, change.value < 2 ^ widths change.index) (before : Option Nat) :
    Spells (List.zipWith (fun before change => changeLines (widths change.index) before change)
      (before :: changes.map (some ·.time)) changes).flatten (bodyItems before changes) := by
  induction changes generalizing before with
  | nil => exact .nil
  | cons change changes ih =>
    have later := ih (fun other member => fits other (List.mem_cons_of_mem _ member))
      (some change.time)
    have value := spells_valueLine (fits change List.mem_cons_self) change.index
    rw [List.map_cons, List.zipWith_cons_cons, List.flatten_cons, changeLines, bodyItems]
    split
    next => exact value.cons later
    next => exact (spells_timeLine change.time).cons (value.cons later)

end GoldenCircuit.Waveform
