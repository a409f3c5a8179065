import GoldenCircuit.Proofs.Waveform.Items

/-! Reading the text of a dump gives the declarations and the changes that the recorder holds. -/
namespace GoldenCircuit.Waveform

def Variable.declaration (index : Nat) (declared : Variable) : Declaration :=
  { identifier := identifier index, width := declared.width, name := declared.name }

theorem words_section (front : String) {text : String} (word : Text.IsWord text) :
    Text.words (front ++ " " ++ text ++ " $end") = Text.words front ++ [text, "$end"] := by
  have parts : front ++ " " ++ text ++ " $end" = front ++ " " ++ text ++ " " ++ "$end" := by
    have last : " $end" = " " ++ "$end" := by decide
    rw [last]
    simp only [String.append_assoc]
  have last : Text.IsWord "$end" := by decide
  rw [parts, Text.words_append_space, Text.words_append_space, word.words_eq, last.words_eq,
    List.append_assoc]
  rfl

theorem words_declarationLine (index : Nat) {declared : Variable}
    (word : Text.IsWord declared.name) :
    Text.words (declarationLine index declared) =
      ["$var", "wire", toString declared.width, identifier index, declared.name, "$end"] := by
  have front : "$var wire " = "$var wire" ++ " " := by decide
  have keywords : Text.words "$var wire" = ["$var", "wire"] := by decide
  unfold declarationLine
  rw [words_section _ word, front, Text.words_append_space, Text.words_append_space, keywords,
    (Text.isWord_toString _).words_eq, (isWord_identifier index).words_eq]
  rfl

theorem readDeclarations_lines {placed : List (Variable × Nat)}
    (named : ∀ signal ∈ placed, Text.IsWord signal.1.name) {words : List String}
    (others : readDeclarations words = some ([], words)) :
    readDeclarations ((placed.map fun signal => declarationLine signal.2 signal.1).flatMap
      Text.words ++ words) =
      some (placed.map fun signal => signal.1.declaration signal.2, words) := by
  induction placed with
  | nil => exact others
  | cons signal placed ih =>
    have later := ih fun other member => named other (List.mem_cons_of_mem _ member)
    rw [List.map_cons, List.flatMap_cons, words_declarationLine _ (named signal List.mem_cons_self)]
    simp only [List.cons_append, List.nil_append, readDeclarations, Text.natural?_toString, later]
    rfl

theorem read_eq_some {text timescale scope : String} {words itemWords : List String}
    {declarations : List Declaration} {items initial body : List Item}
    (header : Text.words text = "$timescale" :: timescale :: "$end" ::
      "$scope" :: "module" :: scope :: "$end" :: words)
    (declared : readDeclarations words = some (declarations,
      "$upscope" :: "$end" :: "$enddefinitions" :: "$end" :: "$dumpvars" :: itemWords))
    (spelled : readItems itemWords = some items)
    (split : splitInitial items = some (initial, body)) :
    read text = some { timescale, scope, declarations, initial, body } := by
  unfold read
  rw [header]
  simp only [declared, spelled, split, bind, Option.bind]
  rfl

namespace Recorder

variable {recorder : Recorder}

def itemLines (recorder : Recorder) : List String :=
  (recorder.signals.mapIdx fun index declared => unknownLine declared.width index) ++
    ["$end"] ++ recorder.bodyLines ++ [timeLine recorder.time]

/-- What is read back from the dump of a recorder. -/
def dump (recorder : Recorder) : Dump where
  timescale := recorder.timescale
  scope := recorder.scope
  declarations := recorder.signals.mapIdx Variable.declaration
  initial := recorder.signals.mapIdx fun index _ => .assign (identifier index) none
  body := bodyItems none recorder.changes.toList ++ [.mark recorder.time]

/-- Texts that a dump can hold, and values that their signals can have. -/
structure Writable (recorder : Recorder) : Prop where
  timescale : Text.IsWord recorder.timescale
  scope : Text.IsWord recorder.scope
  names : ∀ signal ∈ recorder.signals, Text.IsWord signal.name
  fits : ∀ change ∈ recorder.changes.toList,
    change.value < 2 ^ (recorder.signals[change.index]?.map (·.width)).getD 1

theorem splitInitial_items (signals : List Variable) (body : List Item) :
    splitInitial ((signals.mapIdx fun index _ => Item.assign (identifier index) none) ++
      .close :: body) =
      some (signals.mapIdx fun index _ => Item.assign (identifier index) none, body) := by
  have before : ∀ item ∈ signals.mapIdx fun index _ => Item.assign (identifier index) none,
      decide (item ≠ .close) = true := by
    intro item member
    obtain ⟨index, _, rfl⟩ := List.mem_mapIdx.mp member
    rfl
  rw [splitInitial, List.dropWhile_append_of_pos before, List.takeWhile_append_of_pos before]
  simp

theorem spells_changes (writable : Writable recorder) :
    Spells recorder.bodyLines (bodyItems none recorder.changes.toList) := by
  apply @spells_bodyLines (fun index => (recorder.signals.map (·.width)).toArray[index]?.getD 1)
  intro change member
  have fits := writable.fits change member
  rwa [← List.getElem?_map, ← List.getElem?_toArray] at fits

theorem readItems_lines (writable : Writable recorder) :
    readItems (recorder.itemLines.flatMap Text.words) =
      some (recorder.dump.initial ++ .close :: recorder.dump.body) := by
  have spells := (((spells_unknownLines recorder.signals).append spells_end).append
    (spells_changes writable)).append (spells_timeLine recorder.time)
  rw [itemLines, spells.readItems_eq, List.append_assoc, List.append_assoc]
  rfl

theorem words_lines (writable : Writable recorder) :
    recorder.lines.flatMap Text.words =
      "$timescale" :: recorder.timescale :: "$end" ::
      "$scope" :: "module" :: recorder.scope :: "$end" ::
      ((recorder.signals.mapIdx declarationLine).flatMap Text.words ++
        "$upscope" :: "$end" :: "$enddefinitions" :: "$end" :: "$dumpvars" ::
        recorder.itemLines.flatMap Text.words) := by
  have unit : Text.words ("$timescale " ++ recorder.timescale ++ " $end") =
      ["$timescale", recorder.timescale, "$end"] := by
    have front : "$timescale " = "$timescale" ++ " " := by decide
    have keyword : Text.IsWord "$timescale" := by decide
    rw [front, words_section _ writable.timescale, keyword.words_eq]
    rfl
  have scope : Text.words ("$scope module " ++ recorder.scope ++ " $end") =
      ["$scope", "module", recorder.scope, "$end"] := by
    have front : "$scope module " = "$scope module" ++ " " := by decide
    have keywords : Text.words "$scope module" = ["$scope", "module"] := by decide
    rw [front, words_section _ writable.scope, keywords]
    rfl
  have sections : ["$upscope $end", "$enddefinitions $end", "$dumpvars"].flatMap Text.words =
      ["$upscope", "$end", "$enddefinitions", "$end", "$dumpvars"] := by
    decide
  have parts : recorder.lines = ["$timescale " ++ recorder.timescale ++ " $end"] ++
      ["$scope module " ++ recorder.scope ++ " $end"] ++
      recorder.signals.mapIdx declarationLine ++
      ["$upscope $end", "$enddefinitions $end", "$dumpvars"] ++ recorder.itemLines := by
    rw [lines, itemLines]
    simp only [List.append_assoc, List.cons_append, List.nil_append]
  rw [parts, List.flatMap_append, List.flatMap_append, List.flatMap_append, List.flatMap_append,
    List.flatMap_singleton, List.flatMap_singleton, unit, scope, sections]
  simp only [List.append_assoc, List.cons_append, List.nil_append]

theorem readDeclarations_dump (writable : Writable recorder) {words : List String}
    (others : readDeclarations words = some ([], words)) :
    readDeclarations ((recorder.signals.mapIdx declarationLine).flatMap Text.words ++ words) =
      some (recorder.dump.declarations, words) := by
  have named : ∀ signal ∈ recorder.signals.zipIdx, Text.IsWord signal.1.name :=
    fun signal member => writable.names signal.1 (List.fst_mem_of_mem_zipIdx member)
  have read := readDeclarations_lines named others
  rwa [← List.mapIdx_eq_zipIdx_map, ← List.mapIdx_eq_zipIdx_map] at read

/-- A dump reads back as what the recorder holds. -/
theorem read_render_eq (writable : Writable recorder) :
    read recorder.render = some recorder.dump := by
  have header := (Text.words_unlines recorder.lines).trans (words_lines writable)
  exact read_eq_some header (readDeclarations_dump writable rfl) (readItems_lines writable)
    (splitInitial_items recorder.signals recorder.dump.body)

end Recorder
end GoldenCircuit.Waveform
