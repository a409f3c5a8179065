import GoldenCircuit.Flo
import GoldenCircuit.Proofs.Naming
import GoldenCircuit.Proofs.Text.Lines
import GoldenCircuit.Proofs.Text.Numeral

/-! A reader of Flo netlists, one statement a line. What is written of statements whose names are
words reads back as these statements. -/
namespace GoldenCircuit.Flo

/-- The mark between a statement's word and its width. -/
def tick : Char :=
  Char.ofNat 0x27

/-- A word and a width, with the mark between them. -/
def readKind? (kind : String) : Option (String × Width) :=
  match kind.toList.splitOn tick with
  | [word, digits] => do
    let bits ← Text.natural? digits
    let width ← Width.ofNat? bits
    return (String.ofList word, width)
  | _ => none

/-- The statement that the words of a line spell. -/
def readStatement? : List String → Option Statement
  | target :: "=" :: kind :: operands => do
    let (word, width) ← readKind? kind
    return { target, word, width, operands }
  | _ => none

def read? (text : String) : Option (List Statement) := do
  (← Text.wordLines? text).mapM readStatement?

/-- All names of the statement are words, and so is what kind of definition it is, without the mark
that ends it. -/
structure Statement.Legible (statement : Statement) : Prop where
  target : Text.IsWord statement.target
  word : Text.IsWord statement.word
  unmarked : tick ∉ statement.word.toList
  operands : ∀ operand ∈ statement.operands, Text.IsWord operand

namespace Statement

def kind (statement : Statement) : String :=
  statement.word ++ "'" ++ toString statement.width.bits

def tokens (statement : Statement) : List String :=
  statement.target :: "=" :: statement.kind :: statement.operands

theorem readKind?_kind {statement : Statement} (legible : statement.Legible) :
    readKind? statement.kind = some (statement.word, statement.width) := by
  have text : statement.kind.toList =
      statement.word.toList ++ tick :: (toString statement.width.bits).toList := by
    have mark : "'".toList = [tick] := by decide
    simp [kind, mark]
  have digits : tick ∉ (toString statement.width.bits).toList := by
    intro member
    have digit := Text.isDigit_of_mem_toString member
    revert digit
    decide
  have width : Width.ofNat? statement.width.bits = some statement.width :=
    dif_pos statement.width.pos
  rw [readKind?, text, List.splitOn_append_cons_self_of_not_mem legible.unmarked,
    List.splitOn_eq_singleton digits]
  simp only [Text.natural?_toString, width, String.ofList_toList, bind, Option.bind, pure]

theorem isWord_kind {statement : Statement} (legible : statement.Legible) :
    Text.IsWord statement.kind := by
  have mark : "'".toList.any Text.isBlank = false := by decide
  have visible : (statement.word ++ "'").toList.any Text.isBlank = false := by
    rw [String.toList_append, List.any_append, legible.word.2, mark]
    rfl
  exact Text.IsWord.append visible (Text.isWord_toString _)

theorem isLine_render {statement : Statement} (legible : statement.Legible) :
    Text.IsLine statement.render statement.tokens := by
  have equals : Text.IsWord "=" := by decide
  have others : ∀ text ∈ "=" :: statement.kind :: statement.operands, Text.IsWord text := by
    simpa [equals, isWord_kind legible] using legible.operands
  refine (Text.IsLine.of_word legible.target).join others ?_
  simp [render, kind, String.toList_join, List.flatMap_map]

theorem readStatement?_tokens {statement : Statement} (legible : statement.Legible) :
    readStatement? statement.tokens = some statement := by
  simp [tokens, readStatement?, readKind?_kind legible]

end Statement

/-- A netlist reads back as its statements. -/
theorem read?_render {statements : List Statement}
    (legible : ∀ statement ∈ statements, statement.Legible) :
    read? (render statements) = some statements := by
  have lines : Text.AreLines (statements.map Statement.render) (statements.map Statement.tokens) :=
    .map fun statement member => Statement.isLine_render (legible statement member)
  have inverse : statements.mapM (readStatement? ∘ Statement.tokens) =
      some (statements.map id) :=
    mapM_eq_some_map fun statement member =>
      Statement.readStatement?_tokens (legible statement member)
  simpa [read?, render, Text.wordLines?_unlines lines, List.mapM_map] using inverse

end GoldenCircuit.Flo
